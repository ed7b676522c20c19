import Mathlib.Data.List.Induction
import Mathlib.Data.String.Basic
import SyntaxDiagram.Proofs.CommandLine.Sessions

/-!
# Where files are written

* `splitOn_slash`: the parts of a path, by the list of its characters. `splitOn_append` says what
  becomes of them when a name is added to the path.
* `Store.place?`: the place that a path leads to, if a file can stand there. Only the directories of
  a store matter to it.
* `Store.getLast?_placeFrom?`: that place ends with the last name of the path, so that paths that end
  differently lead to different places.
* `Store.read_of_writeAll`: of the files that are written to one place the last one stays.
-/

namespace SyntaxDiagram.CommandLine

/-! ## Parts of paths -/

open String in
/-- Splitting goes from slash to slash. In front are the parts that are already found, and `m` is
what was read since then. -/
theorem splitOnAux_slash (l m r : List Char) (found : List String) :
    splitOnAux (ofList (l ++ m ++ r)) "/" ⟨utf8Len l⟩ ⟨utf8Len l + utf8Len m⟩ 0 found =
      found.reverse ++ (List.splitOnPPrepend (· == '/') r m.reverse).map ofList := by
  have hslash : Pos.Raw.get "/" 0 = '/' := by decide
  have hnext : Pos.Raw.next "/" 0 = ⟨1⟩ := by decide
  have hend : Pos.Raw.atEnd "/" ⟨1⟩ = true := by decide
  induction r generalizing l m found with
  | nil =>
    have hdone : Pos.Raw.atEnd (ofList (l ++ m ++ [])) ⟨utf8Len l + utf8Len m⟩ = true := by
      simp [-ofList_append, atEnd_iff, rawEndPos_ofList, utf8Len_append]
    rw [splitOnAux.eq_1, if_pos hdone, extract_of_valid]
    simp
  | cons c r ih =>
    have hmore : Pos.Raw.atEnd (ofList (l ++ m ++ c :: r)) ⟨utf8Len l + utf8Len m⟩ = false := by
      have := c.utf8Size_pos
      rw [Bool.eq_false_iff, Ne, atEnd_iff, rawEndPos_ofList, Pos.Raw.mk_le_mk, utf8Len_append,
        utf8Len_append, utf8Len_cons]
      omega
    have hget : Pos.Raw.get (ofList (l ++ m ++ c :: r)) ⟨utf8Len l + utf8Len m⟩ = c := by
      rw [← utf8Len_append]
      exact get_of_valid _ _
    have hstep : Pos.Raw.next (ofList (l ++ m ++ c :: r)) ⟨utf8Len l + utf8Len m⟩ =
        ⟨utf8Len l + utf8Len m + c.utf8Size⟩ := by
      rw [← utf8Len_append]
      exact next_of_valid _ _ _
    rw [splitOnAux.eq_1, hmore, if_neg Bool.false_ne_true, hget, hslash]
    dsimp only
    rw [hstep]
    by_cases hc : c = '/'
    · subst hc
      have hback : (⟨utf8Len l + utf8Len m + '/'.utf8Size⟩ : Pos.Raw).unoffsetBy ⟨1⟩ =
          ⟨utf8Len l + utf8Len m⟩ := rfl
      rw [if_pos (beq_self_eq_true _), hnext, if_pos hend, hback, extract_of_valid]
      have hrest := ih (l ++ m ++ ['/']) [] (ofList m :: found)
      simpa [-ofList_append, utf8Len_append, List.splitOnPPrepend_cons_eq_if, Nat.add_assoc]
        using hrest
    · have hne : ¬(c == '/') = true := by simpa using hc
      have hback : (⟨utf8Len l + utf8Len m⟩ : Pos.Raw).unoffsetBy 0 =
          ⟨utf8Len l + utf8Len m⟩ := rfl
      rw [if_neg hne, hback, hstep]
      have hrest := ih l (m ++ [c]) found
      simpa [-ofList_append, utf8Len_append, List.splitOnPPrepend_cons_eq_if, hc, Nat.add_assoc]
        using hrest

/-- The parts of a path. -/
theorem splitOn_slash (path : String) :
    path.splitOn "/" = (path.toList.splitOn '/').map String.ofList := by
  have h := splitOnAux_slash [] [] path.toList []
  unfold String.splitOn
  simpa [List.splitOn] using h

/-- There are no slashes in the parts of a path. -/
theorem slash_notMem_of_mem_splitOn {path part : String} (h : part ∈ path.splitOn "/") :
    '/' ∉ part.toList := by
  have hparts (cs : List Char) : ∀ part ∈ cs.splitOn '/', '/' ∉ part := by
    induction cs with
    | nil => simp
    | cons c rest ih =>
      rw [List.splitOn_cons_eq_if_modifyHead]
      split
      · simpa using ih
      · next hc =>
        have hc : c ≠ '/' := by simpa using hc
        cases hrest : rest.splitOn '/' with
        | nil => simp
        | cons first others =>
          rw [hrest, List.forall_mem_cons] at ih
          rw [List.modifyHead_cons, List.forall_mem_cons, List.mem_cons, not_or]
          exact ⟨⟨hc.symm, ih.1⟩, ih.2⟩
  rw [splitOn_slash, List.mem_map] at h
  obtain ⟨cs, hcs, rfl⟩ := h
  rw [String.toList_ofList]
  exact hparts _ cs hcs

/-- A name at the end of a path goes on with the last part of the path. -/
theorem splitOn_append (front : String) :
    ∃ parts last, ∀ name : String, '/' ∉ name.toList →
      (front ++ name).splitOn "/" = parts ++ [last ++ name] := by
  have hfront : ∃ parts last, ∀ name : List Char, '/' ∉ name →
      (front.toList ++ name).splitOn '/' = parts ++ [last ++ name] := by
    induction front.toList using List.reverseRecOn with
    | nil => exact ⟨[], [], fun name hname => by simpa using List.splitOn_eq_singleton hname⟩
    | append_singleton cs c ih =>
      obtain ⟨parts, last, ih⟩ := ih
      by_cases hc : c = '/'
      · subst hc
        refine ⟨cs.splitOn '/', [], fun name hname => ?_⟩
        rw [List.append_assoc, List.singleton_append, List.splitOn_append_cons_self,
          List.splitOn_eq_singleton hname, List.nil_append]
      · refine ⟨parts, last ++ [c], fun name hname => ?_⟩
        rw [List.append_assoc, List.append_assoc, ih ([c] ++ name)]
        simp [hname, Ne.symm hc]
  obtain ⟨parts, last, h⟩ := hfront
  refine ⟨parts.map String.ofList, String.ofList last, fun name hname => ?_⟩
  rw [splitOn_slash, String.toList_append, h name.toList hname]
  simp

/-- A name of a file in the working directory. -/
structure IsPlain (name : String) : Prop where
  slash_not_mem : '/' ∉ name.toList
  not_mem : name ∉ ["", ".", ".."]
  short : name.utf8ByteSize ≤ Store.maxName

theorem IsPlain.splitOn {name : String} (h : IsPlain name) : name.splitOn "/" = [name] := by
  rw [splitOn_slash, List.splitOn_eq_singleton h.slash_not_mem, List.map_singleton,
    String.ofList_toList]

/-- In an empty store no directory has a plain name. -/
theorem IsPlain.hasDirectory_empty {name : String} (h : IsPlain name) :
    ({} : Store).hasDirectory [name] = false := by
  have hup : name ≠ ".." := fun hup => h.not_mem (by simp [hup])
  have hroot : name ≠ "/" := fun hroot => h.slash_not_mem (by simp [hroot])
  simp [Store.hasDirectory, hup, hroot]

/-! ## Places -/

namespace Store

/-- The place that the parts of a path lead to from a directory, if a file can stand there. -/
def placeFrom? (s : Store) (directory : List String) : List String → Option (List String)
  | [] => none
  | part :: rest =>
    if part = "" ∨ part = "." then s.placeFrom? directory rest
    else if part = ".." then s.placeFrom? (parent directory) rest
    else
      let place := directory ++ [part]
      if s.hasDirectory place then s.placeFrom? place rest
      else if rest.isEmpty then some place else none

/-- The place that a path leads to, if a file can stand there. -/
def place? (s : Store) (path : String) : Option (List String) :=
  s.placeFrom? (if path.startsWith "/" then ["/"] else []) (path.splitOn "/")

/-- The files of a store do not matter to where a path leads. -/
theorem placeFrom?_congr {s t : Store} (h : t.directories = s.directories)
    (directory parts : List String) :
    t.placeFrom? directory parts = s.placeFrom? directory parts := by
  have hasDirectory (place : List String) : t.hasDirectory place = s.hasDirectory place := by
    simp only [Store.hasDirectory, h]
  induction parts generalizing directory with
  | nil => rfl
  | cons part rest ih => simp only [placeFrom?, hasDirectory, ih]

theorem place?_congr {s t : Store} (h : t.directories = s.directories) : t.place? = s.place? :=
  funext fun _ => placeFrom?_congr h _ _

theorem place?_put (s : Store) (place : List String) (content : String) :
    (s.put place content).place? = s.place? := place?_congr rfl

/-- The place of a file that is there or can be made. -/
def Target.place? : Target → Option (List String)
  | file place _ | vacant place => some place
  | directory _ | noDirectory _ => none

/-- A path that leads to a file, or to where one can be made, leads to its place. -/
theorem placeFrom?_of_follow {s : Store} {directory parts place : List String} {target : Target}
    (h : s.follow directory parts = .ok target) (hplace : target.place? = some place) :
    s.placeFrom? directory parts = some place := by
  induction parts generalizing directory with
  | nil =>
    cases h
    cases hplace
  | cons part rest ih =>
    rw [follow] at h
    rw [placeFrom?]
    by_cases hdot : part = "" ∨ part = "."
    · rw [if_pos hdot] at h ⊢
      exact ih h
    by_cases hup : part = ".."
    · rw [if_neg hdot, if_pos hup] at h ⊢
      exact ih h
    rw [if_neg hdot, if_neg hup] at h ⊢
    dsimp only at h ⊢
    by_cases hdirectory : s.hasDirectory (directory ++ [part])
    · rw [if_pos hdirectory] at h ⊢
      exact ih h
    rw [if_neg hdirectory] at h ⊢
    -- the last name of the path, or a name on the way that is no directory's
    split at h
    · cases h
      exact hplace
    · split at h
      · cases h
      · cases h
        exact hplace
    · split at h
      · cases h
        cases hplace
      · cases h

/-- A path that leads to the place of a file leads to the file. -/
theorem follow_of_placeFrom? {s : Store} {directory parts place : List String} {content : String}
    (h : s.placeFrom? directory parts = some place) (hcontent : s.content? place = some content) :
    s.follow directory parts = .ok (.file place content) := by
  induction parts generalizing directory with
  | nil => cases h
  | cons part rest ih =>
    rw [placeFrom?] at h
    rw [follow]
    by_cases hdot : part = "" ∨ part = "."
    · rw [if_pos hdot] at h ⊢
      exact ih h
    by_cases hup : part = ".."
    · rw [if_neg hdot, if_pos hup] at h ⊢
      exact ih h
    rw [if_neg hdot, if_neg hup] at h ⊢
    dsimp only at h ⊢
    by_cases hdirectory : s.hasDirectory (directory ++ [part])
    · rw [if_pos hdirectory] at h ⊢
      exact ih h
    rw [if_neg hdirectory] at h ⊢
    cases rest with
    | nil =>
      cases h
      rw [hcontent]
    | cons next rest => cases h

/-- A place ends with the last name of the path that leads there. -/
theorem getLast?_placeFrom? {s : Store} {directory parts place : List String} {name : String}
    (hname : name ∉ ["", ".", ".."]) (h : s.placeFrom? directory (parts ++ [name]) = some place) :
    place.getLast? = some name := by
  simp only [List.mem_cons, List.not_mem_nil, or_false, not_or] at hname
  obtain ⟨hempty, hdot, hup⟩ := hname
  induction parts generalizing directory with
  | nil =>
    simp only [List.nil_append, placeFrom?, hempty, hdot, hup, or_self, if_false] at h
    split at h
    · cases h
    · cases h
      simp
  | cons part rest ih =>
    rw [List.cons_append, placeFrom?] at h
    split at h
    · exact ih h
    split at h
    · exact ih h
    dsimp only at h
    split at h
    · exact ih h
    · simp at h

/-! ## Contents -/

theorem content?_put (s : Store) (place other : List String) (content : String) :
    (s.put place content).content? other =
      if place = other then some content else s.content? other := by
  rw [content?, put, Std.TreeMap.getElem?_insert, content?]
  simp only [Std.LawfulEqCmp.compare_eq_iff_eq]

/-- **A file that is written has a place**, and its content is put there. -/
theorem write_eq_ok {s t : Store} {path content : String} (h : s.write path content = .ok t) :
    ∃ place, s.place? path = some place ∧ t = s.put place content ∧
      path.utf8ByteSize ≤ maxPath := by
  have hlong : path.utf8ByteSize ≤ maxPath := by
    by_contra hlong
    rw [write, find, if_pos (Nat.lt_of_not_le hlong)] at h
    cases h
  rw [write, find, if_neg (Nat.not_lt.2 hlong)] at h
  split at h
  · cases h
  · next place old hfound =>
    cases h
    exact ⟨place, placeFrom?_of_follow hfound rfl, rfl, hlong⟩
  · next place hfound =>
    cases h
    exact ⟨place, placeFrom?_of_follow hfound rfl, rfl, hlong⟩
  · cases h
  · cases h

/-- A plain name leads to a file in the working directory, unless a directory has the name. -/
theorem find_plain {s : Store} {name : String} (hname : IsPlain name)
    (h : s.hasDirectory [name] = false) :
    s.find name = .ok (match s.content? [name] with
      | some content => .file [name] content
      | none => .vacant [name]) := by
  have hlong : name.utf8ByteSize ≤ maxPath := hname.short.trans (by decide)
  have hroot : ¬name.startsWith "/" := by
    rw [String.startsWith_string_iff]
    exact fun hroot => hname.slash_not_mem (hroot.subset (by decide))
  have hspecial := hname.not_mem
  simp only [List.mem_cons, List.not_mem_nil, or_false, not_or] at hspecial
  obtain ⟨hempty, hdot, hup⟩ := hspecial
  rw [find, if_neg (Nat.not_lt.2 hlong), if_neg hroot, hname.splitOn, follow,
    if_neg (not_or.2 ⟨hempty, hdot⟩), if_neg hup]
  dsimp only [List.nil_append]
  rw [h, if_neg Bool.false_ne_true]
  cases s.content? [name] with
  | some content => rfl
  | none => exact if_neg (Nat.not_lt.2 hname.short)

theorem isDirectory_plain {s : Store} {name : String} (hname : IsPlain name)
    (h : s.hasDirectory [name] = false) : s.isDirectory name = false := by
  rw [isDirectory, find_plain hname h]
  cases s.content? [name] <;> rfl

theorem write_plain {s : Store} {name : String} (hname : IsPlain name)
    (h : s.hasDirectory [name] = false) (content : String) :
    s.write name content = .ok (s.put [name] content) := by
  rw [write, find_plain hname h]
  cases s.content? [name] <;> rfl

/-- What stands at the place that a path leads to is read by the path. -/
theorem read_of_place? {s : Store} {path content : String} {place : List String}
    (hlong : path.utf8ByteSize ≤ maxPath) (h : s.place? path = some place)
    (hcontent : s.content? place = some content) : s.read path = .ok content := by
  rw [read, find, if_neg (Nat.not_lt.2 hlong), follow_of_placeFrom? h hcontent]

/-- Files that are written elsewhere leave a file as it is. -/
theorem content?_writeAll {s t : Store} {files : List (String × String)}
    (h : s.writeAll files = (.ok (), t)) {place : List String}
    (helsewhere : ∀ f ∈ files, s.place? f.1 ≠ some place) :
    t.content? place = s.content? place := by
  induction files generalizing s with
  | nil =>
    cases h
    rfl
  | cons f rest ih =>
    rw [List.forall_mem_cons] at helsewhere
    rw [writeAll] at h
    cases hwrite : s.write f.1 f.2 with
    | error e =>
      rw [hwrite] at h
      cases h
    | ok s' =>
      rw [hwrite] at h
      obtain ⟨place', hplace, rfl, -⟩ := write_eq_ok hwrite
      have hne : place' ≠ place := fun heq => helsewhere.1 (heq ▸ hplace)
      rw [ih h (place?_put s place' f.2 ▸ helsewhere.2), content?_put, if_neg hne]

theorem directories_writeAll {s t : Store} {files : List (String × String)}
    (h : s.writeAll files = (.ok (), t)) : t.directories = s.directories := by
  induction files generalizing s with
  | nil =>
    cases h
    rfl
  | cons f rest ih =>
    rw [writeAll] at h
    cases hwrite : s.write f.1 f.2 with
    | error e =>
      rw [hwrite] at h
      cases h
    | ok s' =>
      rw [hwrite] at h
      rw [ih h, directories_write hwrite]

/-- **The last file stays**: of files that are written one after another, one is found as it was
written if those behind it are written elsewhere. -/
theorem read_of_writeAll {s t : Store} {front back : List (String × String)}
    {path content : String} (h : s.writeAll (front ++ (path, content) :: back) = (.ok (), t)) :
    ∃ place, s.place? path = some place ∧
      ((∀ f ∈ back, s.place? f.1 ≠ some place) → t.read path = .ok content) := by
  rw [writeAll_append] at h
  split at h
  · next s₁ hfront =>
    rw [writeAll] at h
    cases hwrite : s₁.write path content with
    | error e =>
      rw [hwrite] at h
      cases h
    | ok s₂ =>
      rw [hwrite] at h
      have hs₁ := place?_congr (directories_writeAll hfront)
      have ht := place?_congr (directories_writeAll h)
      obtain ⟨place, hplace, rfl, hlong⟩ := write_eq_ok hwrite
      have hfound : t.place? path = some place := by rw [ht, place?_put, hplace]
      refine ⟨place, hs₁ ▸ hplace, fun hback => read_of_place? hlong hfound ?_⟩
      rw [content?_writeAll h, content?_put, if_pos rfl]
      rwa [place?_put, hs₁]
  · cases h

end Store

end SyntaxDiagram.CommandLine
