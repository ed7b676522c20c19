import Mathlib.Data.List.DropRight
import SyntaxDiagram.Proofs.Markup.Reachable
import SyntaxDiagram.Proofs.Xml.Drawings

/-!
# Attributes as an ordered map

Attributes are asked and changed by calls. What they hold can be said from the calls alone: a value
is the text that was added last with everything concatenated to it, and a name stands where it first
came in. Both count from the last time that the name was deleted.

* `Attributes.calls`: calls one after another.
* `Attributes.History.value?`, `Attributes.History.entrance?`: what the calls so far say of the
  value of a name, and which of them brought the name in.
* `Attributes.Follows`: attributes that are as a history says. `Attributes.Follows.call` is one step
  and `Attributes.follows_calls` a whole run.
* `Attributes.calls_follow_history`: the answers of a run and what it leaves behind.
-/

namespace SyntaxDiagram.Attributes

/-! ## Calls -/

/-- What attributes can be asked. -/
inductive Call where
  | add (name value : String)
  | concat (name value : String)
  | get (name : String)
  | delete (name : String)
  | contains (name : String)
  deriving Repr, DecidableEq

/-- What attributes answer. -/
inductive Answer where
  | done
  | refused (error : Error)
  /-- the value that a name has, or had until now -/
  | value (value : Option String)
  | presence (there : Bool)

/-- What comes of a change that may be refused. -/
def settle (a : Attributes String) : Except Error (Attributes String) → Answer × Attributes String
  | .ok b => (.done, b)
  | .error error => (.refused error, a)

/-- The answer to a call, and the attributes behind it. -/
def call (a : Attributes String) : Call → Answer × Attributes String
  | .add name value => a.settle (a.add name value)
  | .concat name value => a.settle (a.concat name value)
  | .get name => (.value (a.get? name), a)
  | .delete name => (.value (a.get? name), a.erase name)
  | .contains name => (.presence (a.contains name), a)

/-- The answers to calls one after another, and the attributes behind them. -/
def calls (a : Attributes String) : List Call → List Answer × Attributes String
  | [] => ([], a)
  | c :: rest =>
    let (answer, a') := a.call c
    let (answers, a'') := a'.calls rest
    (answer :: answers, a'')

theorem calls_cons (a : Attributes String) (c : Call) (rest : List Call) :
    a.calls (c :: rest) =
      ((a.call c).1 :: ((a.call c).2.calls rest).1, ((a.call c).2.calls rest).2) := rfl

theorem calls_append (a : Attributes String) (cs rest : List Call) :
    a.calls (cs ++ rest) =
      ((a.calls cs).1 ++ ((a.calls cs).2.calls rest).1, ((a.calls cs).2.calls rest).2) := by
  induction cs generalizing a with
  | nil => rfl
  | cons c cs ih => rw [List.cons_append, calls_cons, calls_cons, ih, List.cons_append]

theorem length_calls (a : Attributes String) (cs : List Call) :
    (a.calls cs).1.length = cs.length := by
  induction cs generalizing a with
  | nil => rfl
  | cons c cs ih => rw [calls_cons, List.length_cons, ih, List.length_cons]

/-! ## Histories -/

namespace Call

/-- Whether a call gives a text to a name. A name that is not valid is never given one. -/
def writes (name : String) : Call → Bool
  | add n _ | concat n _ => n = name && isAttributeName name
  | get _ | delete _ | contains _ => false

/-- The text that a call puts in the place of the value of a name. -/
def added? (name : String) : Call → Option String
  | add n value => if n = name then some value else none
  | _ => none

/-- The text that a call puts behind the value of a name. -/
def concatenated? (name : String) : Call → Option String
  | concat n value => if n = name then some value else none
  | _ => none

end Call

/-- The calls that were made so far, the first one first. -/
abbrev History := List Call

namespace History

/-- The calls since a name was last deleted. -/
def recent (h : History) (name : String) : History := h.rtakeWhile fun c => c ≠ .delete name

/-- The text that was added last among some calls, followed by everything concatenated after it. -/
def text (h : History) (name : String) : String :=
  let added := (h.filterMap (Call.added? name)).getLast?
  let behind := h.rtakeWhile fun c => (c.added? name).isNone
  added.getD "" ++ String.join (behind.filterMap (Call.concatenated? name))

/-- The value of a name. -/
def value? (h : History) (name : String) : Option String :=
  if (h.recent name).any (Call.writes name) then some (text (h.recent name) name) else none

/-- The number of the call that brought a name in: the first one to give it a text since the name
was last deleted. -/
def entrance? (h : History) (name : String) : Option Nat :=
  ((h.recent name).findIdx? (Call.writes name)).map (h.length - (h.recent name).length + ·)

variable {h : History} {name : String} {c : Call}

theorem recent_concat (h : History) (c : Call) (name : String) :
    recent (h ++ [c]) name = if c = .delete name then [] else h.recent name ++ [c] := by
  rw [recent, List.rtakeWhile_concat, recent]
  by_cases hc : c = .delete name <;> simp [hc]

theorem recent_concat_of_ne (hc : c ≠ .delete name) :
    recent (h ++ [c]) name = h.recent name ++ [c] := by
  rw [recent_concat, if_neg hc]

theorem isSome_value? : (h.value? name).isSome = (h.recent name).any (Call.writes name) := by
  rw [value?]
  split <;> simp_all

theorem isSome_entrance? :
    (h.entrance? name).isSome = (h.recent name).any (Call.writes name) := by
  rw [entrance?, Option.isSome_map, List.findIdx?_isSome]

/-- The call that brought a name in is one of those in the history. -/
theorem entrance?_lt {i : Nat} (hi : h.entrance? name = some i) : i < h.length := by
  obtain ⟨j, hj, rfl⟩ := Option.map_eq_some_iff.1 hi
  have hlt : j < (h.recent name).length := by
    obtain ⟨hlt, -⟩ := List.findIdx?_eq_some_iff_getElem.1 hj
    exact hlt
  have hle : (h.recent name).length ≤ h.length := (List.rtakeWhile_suffix _ _).length_le
  omega

/-! ### One more call -/

theorem value?_delete : value? (h ++ [.delete name]) name = none := by
  rw [value?, recent_concat, if_pos rfl]
  rfl

/-- A call that gives no text to a name changes nothing in the texts of valid names. -/
theorem texts_eq_none (hname : isAttributeName name) (hwrites : c.writes name = false) :
    c.added? name = none ∧ c.concatenated? name = none := by
  cases c with
  | add n value =>
    have hne : n ≠ name := by simpa [Call.writes, hname] using hwrites
    exact ⟨if_neg hne, rfl⟩
  | concat n value =>
    have hne : n ≠ name := by simpa [Call.writes, hname] using hwrites
    exact ⟨rfl, if_neg hne⟩
  | get | delete | contains => exact ⟨rfl, rfl⟩

theorem not_writes_of_invalid (hname : ¬isAttributeName name) (c : Call) :
    c.writes name = false := by
  cases c <;> simp [Call.writes, hname]

/-- Without a call that gives it a text the text of a name is empty. -/
theorem text_eq_empty (hname : isAttributeName name) (h : History)
    (hwrites : ∀ c ∈ h, c.writes name = false) : h.text name = "" := by
  have hadded : h.filterMap (Call.added? name) = [] :=
    List.filterMap_eq_nil_iff.2 fun c hc => (texts_eq_none hname (hwrites c hc)).1
  have hconcatenated : (h.rtakeWhile fun c => (c.added? name).isNone).filterMap
      (Call.concatenated? name) = [] :=
    List.filterMap_eq_nil_iff.2 fun c hc => (texts_eq_none hname (hwrites c
      ((List.rtakeWhile_suffix _ _).mem hc))).2
  rw [text, hadded, hconcatenated]
  rfl

theorem text_concat_of_none (hadded : c.added? name = none) :
    text (h ++ [c]) name = h.text name ++ (c.concatenated? name).getD "" := by
  have hbehind : (h ++ [c]).rtakeWhile (fun c => (c.added? name).isNone) =
      h.rtakeWhile (fun c => (c.added? name).isNone) ++ [c] :=
    List.rtakeWhile_concat_pos _ _ _ (by rw [hadded]; rfl)
  rw [text, hbehind, List.filterMap_append, List.filterMap_append, String.join_append, text]
  cases hc : c.concatenated? name <;> simp [hadded, hc, String.append_assoc]

theorem value?_of_ne (hc : c ≠ .delete name) (hwrites : c.writes name = false) :
    value? (h ++ [c]) name = h.value? name := by
  have hany : (h.recent name ++ [c]).any (Call.writes name) =
      (h.recent name).any (Call.writes name) := by simp [hwrites]
  rw [value?, recent_concat_of_ne hc, hany, value?]
  by_cases hname : isAttributeName name
  · obtain ⟨hadded, hconcatenated⟩ := texts_eq_none hname hwrites
    rw [text_concat_of_none hadded, hconcatenated, Option.getD_none, String.append_empty]
  · have hnone : (h.recent name).any (Call.writes name) = false :=
      List.any_eq_false.2 fun c _ => by simp [not_writes_of_invalid hname]
    simp [hnone]

theorem ne_delete_of_writes (hwrites : c.writes name) : c ≠ .delete name := by
  rintro rfl
  cases hwrites

theorem value?_of_writes (hwrites : c.writes name) :
    value? (h ++ [c]) name = some (text (h.recent name ++ [c]) name) := by
  have hany : (h.recent name ++ [c]).any (Call.writes name) := by simp [hwrites]
  rw [value?, recent_concat_of_ne (ne_delete_of_writes hwrites), if_pos hany]

theorem value?_add {value : String} (hname : isAttributeName name) :
    value? (h ++ [.add name value]) name = some value := by
  rw [value?_of_writes (by simp [Call.writes, hname]), text]
  simp [Call.added?]

theorem value?_concat {value : String} (hname : isAttributeName name) :
    value? (h ++ [.concat name value]) name = some ((h.value? name).getD "" ++ value) := by
  have htext : (h.value? name).getD "" = text (h.recent name) name := by
    rw [value?]
    split
    · rfl
    · rename_i hnone
      rw [Bool.not_eq_true, List.any_eq_false] at hnone
      exact (text_eq_empty hname _ fun c hc => Bool.eq_false_iff.2 (hnone c hc)).symm
  rw [value?_of_writes (by simp [Call.writes, hname]), text_concat_of_none rfl, htext]
  simp [Call.concatenated?]

theorem entrance?_concat (hc : c ≠ .delete name) :
    entrance? (h ++ [c]) name =
      (h.entrance? name).or (if c.writes name then some h.length else none) := by
  have hle : (h.recent name).length ≤ h.length := (List.rtakeWhile_suffix _ _).length_le
  have hlength : h.length - (h.recent name).length + (h.recent name).length = h.length := by omega
  rw [entrance?, recent_concat_of_ne hc, List.findIdx?_append, List.length_append,
    List.length_append, List.length_singleton, Nat.add_sub_add_right, Option.map_or, entrance?]
  congr 1
  by_cases hwrites : c.writes name <;> simp [hwrites, hlength]

end History

/-! ## Names and values -/

section Entries

variable {a : Attributes String} {name other : String}

theorem mem_names_iff : name ∈ a.names ↔ (a.get? name).isSome := by
  rw [← not_iff_not, Option.not_isSome_iff_eq_none, get?, List.lookup_eq_none_iff, names,
    List.mem_map, not_exists]
  exact forall_congr' fun e => ⟨fun h he => bne_iff_ne.2 fun heq => h ⟨he, heq.symm⟩,
    fun h he => bne_iff_ne.1 (h he.1) he.2.symm⟩

theorem names_upsert_of_mem (h : name ∈ a.names) (value : Option String → String) :
    (a.upsert name value).names = a.names := by
  obtain ⟨es⟩ := a
  change name ∈ es.map (·.1) at h
  change (upsertEntries name value es).map (·.1) = es.map (·.1)
  induction es with
  | nil => cases h
  | cons e rest ih =>
    rw [upsertEntries]
    split
    · rename_i hname
      rw [List.map_cons, List.map_cons, hname]
    · rename_i hname
      rw [List.map_cons, List.mem_cons] at h
      rw [List.map_cons, List.map_cons, ih (h.resolve_left (Ne.symm hname))]

theorem names_upsert_of_notMem (h : name ∉ a.names) (value : Option String → String) :
    (a.upsert name value).names = a.names ++ [name] := by
  rw [names, upsert, upsertEntries_of_notMem h, List.map_append]
  rfl

theorem names_erase (a : Attributes String) (name : String) :
    (a.erase name).names = a.names.erase name := by
  rw [names, names, erase, List.erase_eq_eraseP', List.eraseP_map]
  rfl

theorem get?_erase_of_ne (h : other ≠ name) : (a.erase name).get? other = a.get? other := by
  obtain ⟨es⟩ := a
  change (es.eraseP fun e => e.1 = name).lookup other = es.lookup other
  induction es with
  | nil => rfl
  | cons e rest ih =>
    rw [List.eraseP_cons, List.lookup_cons]
    by_cases hname : e.1 = name
    · rw [decide_eq_true hname, cond_true, hname, beq_false_of_ne h]
    · rw [decide_eq_false hname, cond_false, List.lookup_cons, ih]

theorem get?_erase_self (h : a.names.Nodup) : (a.erase name).get? name = none := by
  rw [← Option.not_isSome_iff_eq_none, ← mem_names_iff, names_erase]
  exact h.not_mem_erase

end Entries

/-! ## Attributes and histories -/

/-- Attributes that are as a history says: their names are valid, none of them comes twice, the
values are those of the history, and the names stand in the order in which they came in. -/
structure Follows (h : History) (a : Attributes String) : Prop where
  named : a.Named
  nodup : a.names.Nodup
  value (name : String) : a.get? name = h.value? name
  order : a.names.Pairwise fun m n => h.entrance? m < h.entrance? n

namespace Follows

variable {h : History} {a : Attributes String} {c : Call} {name : String}

theorem mem_names_iff (hf : Follows h a) : name ∈ a.names ↔ (h.entrance? name).isSome := by
  rw [Attributes.mem_names_iff, hf.value, History.isSome_value?, History.isSome_entrance?]

/-- A call that neither gives a text to a name nor deletes one is no change. -/
theorem idle (hf : Follows h a) (hc : ∀ name, c ≠ .delete name)
    (hwrites : ∀ name, c.writes name = false) : Follows (h ++ [c]) a where
  named := hf.named
  nodup := hf.nodup
  value name := by rw [History.value?_of_ne (hc name) (hwrites name), hf.value]
  order := hf.order.imp fun {m n} hlt => by
    rw [History.entrance?_concat (hc m), History.entrance?_concat (hc n), hwrites, hwrites]
    simpa using hlt

/-- A name that is given a text keeps its place, and a new one comes behind all others. -/
theorem upsert (hf : Follows h a) {value : Option String → String} (hname : isAttributeName name)
    (hwrites : ∀ other, c.writes other = decide (other = name))
    (hvalue : History.value? (h ++ [c]) name = some (value (a.get? name))) :
    Follows (h ++ [c]) (a.upsert name value) := by
  have hne (other : String) : c ≠ .delete other := by
    rintro rfl
    simpa [Call.writes] using hwrites name
  have hentrance (other : String) : History.entrance? (h ++ [c]) other =
      (h.entrance? other).or (if other = name then some h.length else none) := by
    rw [History.entrance?_concat (hne other), hwrites]
    simp
  -- the calls that brought in the names that are there do not change
  have hkept {m : String} (hm : m ∈ a.names) :
      History.entrance? (h ++ [c]) m = h.entrance? m := by
    obtain ⟨i, hi⟩ := Option.isSome_iff_exists.1 (hf.mem_names_iff.1 hm)
    rw [hentrance, hi, Option.some_or]
  have hold : a.names.Pairwise fun m n =>
      History.entrance? (h ++ [c]) m < History.entrance? (h ++ [c]) n :=
    hf.order.imp_of_mem fun hm hn hlt => by rwa [hkept hm, hkept hn]
  refine ⟨named_upsert hf.named hname _, nodup_upsertEntries hf.nodup, fun other => ?_, ?_⟩
  · by_cases hother : other = name
    · rw [hother, get?_upsert_self, hvalue]
    · rw [get?_upsert_of_ne _ hother, hf.value, History.value?_of_ne (hne other)]
      simp [hwrites, hother]
  · by_cases hmem : name ∈ a.names
    · rwa [names_upsert_of_mem hmem]
    · have hnone : h.entrance? name = none := by
        rwa [hf.mem_names_iff, Option.not_isSome_iff_eq_none] at hmem
      rw [names_upsert_of_notMem hmem, List.pairwise_append]
      refine ⟨hold, List.pairwise_singleton _ _, fun m hm n hn => ?_⟩
      obtain ⟨i, hi⟩ := Option.isSome_iff_exists.1 (hf.mem_names_iff.1 hm)
      rw [List.mem_singleton.1 hn, hkept hm, hi, hentrance, hnone, if_pos rfl, Option.none_or]
      exact Option.some_lt_some.2 (History.entrance?_lt hi)

/-- The names that are left keep their order. -/
theorem erase (hf : Follows h a) (name : String) :
    Follows (h ++ [.delete name]) (a.erase name) := by
  have hkept {other : String} (hother : other ≠ name) :
      Call.delete name ≠ .delete other := fun heq => hother (Call.delete.inj heq).symm
  have hentrance {other : String} (hother : other ≠ name) :
      History.entrance? (h ++ [.delete name]) other = h.entrance? other := by
    rw [History.entrance?_concat (hkept hother)]
    exact Option.or_none
  refine ⟨fun e he => hf.named e (List.mem_of_mem_eraseP he), ?_, fun other => ?_, ?_⟩
  · rw [names_erase]
    exact hf.nodup.erase name
  · by_cases hother : other = name
    · rw [hother, get?_erase_self hf.nodup, History.value?_delete]
    · rw [get?_erase_of_ne hother, hf.value, History.value?_of_ne (hkept hother) rfl]
  · rw [names_erase]
    refine (hf.order.sublist List.erase_sublist).imp_of_mem fun hm hn hlt => ?_
    rwa [hentrance (hf.nodup.mem_erase_iff.1 hm).1, hentrance (hf.nodup.mem_erase_iff.1 hn).1]

/-- **One call** on attributes that are as a history says. A call that is refused is no change. -/
theorem call (hf : Follows h a) (c : Call) : Follows (h ++ [c]) (a.call c).2 := by
  have hwrites {name : String} (hname : isAttributeName name) (other : String) :
      (name = other && isAttributeName other) = decide (other = name) := by
    by_cases hother : other = name
    · simp [hother, hname]
    · simp [hother, Ne.symm hother]
  have hrefused {name : String} (hname : ¬isAttributeName name) (other : String) :
      (name = other && isAttributeName other) = false := by
    by_cases hother : name = other
    · simp [← hother, hname]
    · simp [hother]
  cases c with
  | add name value =>
    rw [Attributes.call, Attributes.add]
    split
    · rename_i hname
      exact hf.upsert hname (hwrites hname) (History.value?_add hname)
    · rename_i hname
      exact hf.idle (by simp) (hrefused hname)
  | concat name value =>
    rw [Attributes.call, Attributes.concat]
    split
    · rename_i hname
      refine hf.upsert hname (hwrites hname) ?_
      rw [History.value?_concat hname, hf.value]
    · rename_i hname
      exact hf.idle (by simp) (hrefused hname)
  | get name => exact hf.idle (by simp) fun _ => rfl
  | delete name => exact hf.erase name
  | contains name => exact hf.idle (by simp) fun _ => rfl

end Follows

theorem follows_empty : Follows [] ∅ where
  named := nofun
  nodup := List.nodup_nil
  value _ := rfl
  order := .nil

/-- **A whole run.** Whatever is asked of attributes, they are as the calls so far say. -/
theorem follows_calls (h : History) : Follows h ((∅ : Attributes String).calls h).2 := by
  induction h using List.reverseRecOn with
  | nil => exact follows_empty
  | append_singleton h c ih =>
    rw [calls_append]
    exact ih.call c

/-! ## Answers -/

/-- The answer to a call behind earlier ones. Only a call that would give a name a text is refused:
the others have no error to return, and find nothing under a name that is not valid. -/
def Call.answer (earlier : History) : Call → Answer
  | .add name _ | .concat name _ =>
    if isAttributeName name then .done else .refused (.invalidAttributeName name)
  | .get name | .delete name => .value (earlier.value? name)
  | .contains name => .presence (earlier.value? name).isSome

section Answers

variable {h : History} {a : Attributes String} {name : String}

theorem Follows.answer_eq (hf : Follows h a) (c : Call) : (a.call c).1 = c.answer h := by
  cases c with
  | add name value =>
    rw [Attributes.call, Attributes.add, Call.answer]
    split <;> rfl
  | concat name value =>
    rw [Attributes.call, Attributes.concat, Call.answer]
    split <;> rfl
  | get name | delete name => rw [Attributes.call, Call.answer, hf.value]
  | contains name => rw [Attributes.call, Call.answer, contains, hf.value]

theorem answer_calls (before : History) (c : Call) (after : List Call) :
    ((∅ : Attributes String).calls (before ++ c :: after)).1[before.length]? =
      some (c.answer before) := by
  rw [calls_append, List.getElem?_append_right (length_calls _ _).le, length_calls, Nat.sub_self,
    calls_cons, List.getElem?_cons_zero, (follows_calls before).answer_eq]

theorem answers_calls (h : History) :
    ((∅ : Attributes String).calls h).1 = h.mapIdx fun i c => c.answer (h.take i) := by
  refine List.ext_getElem? fun i => ?_
  rcases Nat.lt_or_ge i h.length with hi | hi
  · have hsplit : h = h.take i ++ h[i] :: h.drop (i + 1) := by
      rw [List.getElem_cons_drop, List.take_append_drop]
    have hlength : (h.take i).length = i := List.length_take_of_le hi.le
    have hanswer := answer_calls (h.take i) h[i] (h.drop (i + 1))
    rw [← hsplit, hlength] at hanswer
    rw [hanswer, List.getElem?_mapIdx, List.getElem?_eq_getElem hi, Option.map_some]
  · rw [List.getElem?_eq_none (by rwa [length_calls]),
      List.getElem?_eq_none (by rwa [List.length_mapIdx])]

theorem erase_of_notMem (h : name ∉ a.names) : a.erase name = a := by
  obtain ⟨es⟩ := a
  refine congrArg mk (List.eraseP_of_forall_not fun e he hname => h ?_)
  rw [← of_decide_eq_true hname]
  exact List.mem_map_of_mem he

/-- A call on a name that is not valid is no change, whether it is refused or finds nothing. -/
theorem call_of_invalid (ha : a.Named) (hname : ¬isAttributeName name) (value : String) :
    a.call (.add name value) = (.refused (.invalidAttributeName name), a) ∧
    a.call (.concat name value) = (.refused (.invalidAttributeName name), a) ∧
    a.call (.get name) = (.value none, a) ∧ a.call (.delete name) = (.value none, a) ∧
    a.call (.contains name) = (.presence false, a) := by
  have hmem : name ∉ a.names := fun hmem => by
    obtain ⟨e, he, rfl⟩ := List.mem_map.1 hmem
    exact hname (ha e he)
  have hnone : a.get? name = none := by
    rwa [mem_names_iff, Option.not_isSome_iff_eq_none] at hmem
  refine ⟨?_, ?_, ?_, ?_, ?_⟩
  · rw [call, add, if_neg hname, settle]
  · rw [call, concat, if_neg hname, settle]
  · rw [call, hnone]
  · rw [call, hnone, erase_of_notMem hmem]
  · rw [call, contains, hnone, Option.isSome_none]

/-- The names after a valid one was given a text: a name that is there stays in its place. -/
theorem names_call (hname : isAttributeName name) (value : String) :
    (a.call (.add name value)).2.names = (if name ∈ a.names then a.names else a.names ++ [name]) ∧
    (a.call (.concat name value)).2.names =
      (if name ∈ a.names then a.names else a.names ++ [name]) := by
  have hupsert (value : Option String → String) : (a.upsert name value).names =
      if name ∈ a.names then a.names else a.names ++ [name] := by
    split
    · rename_i hmem
      exact names_upsert_of_mem hmem value
    · rename_i hmem
      exact names_upsert_of_notMem hmem value
  constructor
  · rw [call, add, if_pos hname, settle]
    exact hupsert _
  · rw [call, concat, if_pos hname, settle]
    exact hupsert _

/-- Where no name comes twice, the value of an entry is the one under its name. -/
theorem get?_of_mem (h : a.names.Nodup) {e : String × String} (he : e ∈ a.entries) :
    a.get? e.1 = some e.2 := by
  obtain ⟨before, behind, hentries⟩ := List.append_of_mem he
  rw [names, hentries, List.map_append, List.map_cons, List.nodup_append] at h
  obtain ⟨-, -, hapart⟩ := h
  refine List.lookup_eq_some_iff.2 ⟨before, behind, hentries, fun p hp => bne_iff_ne.2 ?_⟩
  exact (hapart p.1 (List.mem_map_of_mem hp) e.1 List.mem_cons_self).symm

/-- The entries are the names with what is found under them. -/
theorem entries_eq_map (h : a.names.Nodup) :
    a.entries = a.names.map fun name => (name, (a.get? name).getD "") := by
  have hentry : ∀ e ∈ a.entries, (e.1, (a.get? e.1).getD "") = e := fun e he => by
    rw [get?_of_mem h he, Option.getD_some]
  rw [names, List.map_map]
  exact ((List.map_congr_left hentry).trans (List.map_id _)).symm

end Answers

/-- **Attributes are an ordered map.** Take any calls on attributes that are empty at first. Names
are valid and none comes twice. Each call is answered from the calls before it, and one on a name
that is not valid is no change. A value is the last one that was added since the name was deleted,
with all that was concatenated to it since. The entries, and the text, list the names in the order
in which they came in: a name that is there stays in its place when it is given a text, and the
others stay in theirs when it is deleted. -/
theorem calls_follow_history (cs : List Call) :
    let answers := ((∅ : Attributes String).calls cs).1
    let a := ((∅ : Attributes String).calls cs).2
    let value := fun name => (History.value? cs name).getD ""
    (a.names.Nodup ∧ ∀ name ∈ a.names, isAttributeName name) ∧
    (answers = cs.mapIdx fun i c => c.answer (cs.take i)) ∧
    (∀ name text, ¬isAttributeName name →
      a.call (.add name text) = (.refused (.invalidAttributeName name), a) ∧
      a.call (.concat name text) = (.refused (.invalidAttributeName name), a) ∧
      a.call (.get name) = (.value none, a) ∧ a.call (.delete name) = (.value none, a) ∧
      a.call (.contains name) = (.presence false, a)) ∧
    (∀ name, a.call (.get name) = (.value (History.value? cs name), a)) ∧
    (a.entries = a.names.map fun name => (name, value name)) ∧
    (a.text = " ".intercalate
      (a.names.map fun name => name ++ "=\"" ++ Text.escapeValue (value name) ++ "\"")) ∧
    (∀ name, name ∈ a.names ↔ (History.entrance? cs name).isSome) ∧
    (a.names.Pairwise fun m n => History.entrance? cs m < History.entrance? cs n) ∧
    (∀ name text, isAttributeName name →
      (a.call (.add name text)).2.names =
        (if name ∈ a.names then a.names else a.names ++ [name]) ∧
      (a.call (.concat name text)).2.names =
        (if name ∈ a.names then a.names else a.names ++ [name])) ∧
    ∀ name, (a.call (.delete name)).2.names = a.names.erase name := by
  intro answers a value
  have hf : Follows cs a := follows_calls cs
  have hentries : a.entries = a.names.map fun name => (name, value name) := by
    rw [entries_eq_map hf.nodup]
    exact List.map_congr_left fun name _ => by rw [hf.value]
  refine ⟨⟨hf.nodup, fun name hname => ?_⟩, answers_calls cs,
    fun name text hname => call_of_invalid hf.named hname text, fun name => ?_, hentries, ?_,
    fun name => hf.mem_names_iff, hf.order, fun name text hname => names_call hname text,
    names_erase a⟩
  · obtain ⟨e, he, rfl⟩ := List.mem_map.1 hname
    exact hf.named e he
  · rw [call, hf.value]
  · rw [text, hentries, List.map_map]
    rfl

/-- A name that is deleted and given a text again comes last, with that text alone. -/
theorem calls_follow_history_readded :
    let a := ((∅ : Attributes String).calls [.add "a" "1", .add "b" "2", .add "a" "3",
      .concat "b" "4", .delete "a", .concat "a" "5"]).2
    a.names = ["b", "a"] ∧ a.entries = [("b", "24"), ("a", "5")] ∧
    ¬isAttributeName "1st" ∧
    a.call (.add "1st" "6") = (.refused (.invalidAttributeName "1st"), a) ∧
    isAttributeName "b" ∧ (a.call (.add "b" "6")).2.names = ["b", "a"] := by
  intro a
  obtain ⟨-, -, hinvalid, -, hentries, -, -, -, hvalid, -⟩ := calls_follow_history
    [.add "a" "1", .add "b" "2", .add "a" "3", .concat "b" "4", .delete "a", .concat "a" "5"]
  have hnames : a.names = ["b", "a"] := by decide
  refine ⟨hnames, ?_, by decide, (hinvalid "1st" "6" (by decide)).1, by decide, ?_⟩
  · refine hentries.trans ?_
    rw [hnames]
    decide
  · refine (hvalid "b" "6" (by decide)).1.trans ?_
    rw [hnames]
    decide

/-- Only a call that would give a name a text is refused. -/
theorem answers_to_invalid_name :
    ¬isAttributeName "1st" ∧
    ((∅ : Attributes String).calls [.get "1st", .delete "1st", .contains "1st"]).1 =
      [.value none, .value none, .presence false] ∧
    ∀ answer ∈ ((∅ : Attributes String).calls [.get "1st", .delete "1st", .contains "1st"]).1,
      answer ≠ .refused (.invalidAttributeName "1st") := by
  refine ⟨by decide, rfl, ?_⟩
  change ∀ answer ∈ [Answer.value none, .value none, .presence false], _
  simp

end SyntaxDiagram.Attributes
