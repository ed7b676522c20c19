import SyntaxDiagram.Proofs.CommandLine.Places

/-!
# Names of files

What files are called, in terms of the parts of paths.

* `EndsIn`, `HasEnding`: the last part of a path, and the ending of a file name.
  `PathName.extension?_eq_some_iff` says that endings are what is read off a path as such.
* `IsStem`, `IsSlug`: what the names of the output and of a rule become in the name of a file.
* `FileOf`: the file of one of several diagrams. `outputs_eq_iff` says that the paths of a run lead
  to such files, one for each diagram, and are the only ones that do.
-/

namespace SyntaxDiagram.CommandLine

/-- The last part of a path, and those in front of it. Empty parts and dots do not count, unless one
of them is the first part. -/
def EndsIn (path : String) (front : List String) (last : String) : Prop :=
  ∃ first rest, path.splitOn "/" = first :: rest ∧
    first :: rest.filter (fun part => part ≠ "" ∧ part ≠ ".") = front ++ [last]

/-- The name of a file has an ending behind a dot, and something in front of the dot. -/
def HasEnding (path ending : String) : Prop :=
  ∃ front stem, stem ≠ "" ∧ EndsIn path front (stem ++ "." ++ ending)

/-- What stands in front of the ending of a file name. The ending starts at the last dot, unless
that is the first character of the name. The last part of a path may be no name at all. -/
inductive IsStem : (part stem : String) → Prop
  | cut {stem ending : String} (hstem : stem ≠ "") (hending : '.' ∉ ending.toList)
      (h : stem ++ "." ++ ending ≠ "..") : IsStem (stem ++ "." ++ ending) stem
  | whole {name : String} (h : name ∉ ["", ".", ".."]) (hdot : '.' ∉ name.toList.tail) :
      IsStem name name
  | nameless {part : String} (h : part ∈ ["", ".", ".."]) : IsStem part "diagram"

/-- A name as a part of a file name: ASCII letters, digits and underscores stay as they are, and
every other character is a dash there. -/
def IsSlug (name slug : String) : Prop :=
  List.Forall₂ (fun c d => d = if c.isAlphanum ∨ c = '_' then c else '-') name.toList slug.toList

/-- The file of one of several diagrams. A directory has a file for each rule in it. Any other
output has the files in its place, with its stem in front of their names. -/
inductive FileOf (output name : String) : (isDirectory : Bool) → (path : String) → Prop
  | within {slug : String} (hslug : IsSlug name slug) :
      FileOf output name true
        (output ++ (if output.isEmpty ∨ output.endsWith "/" then "" else "/") ++ slug ++ ".svg")
  | beside {front : List String} {last stem slug : String} (hlast : EndsIn output front last)
      (hstem : IsStem last stem) (hslug : IsSlug name slug) :
      FileOf output name false ("/".intercalate (front ++ [stem ++ "-" ++ slug ++ ".svg"]))

namespace PathName

variable {path last name stem ending : String} {front : List String}

/-! ## Parts -/

theorem parts_eq_iff : parts path = front ++ [last] ↔ EndsIn path front last := by
  unfold parts EndsIn
  split
  · next h => simp [h]
  · next first rest h => simp [h]

theorem exists_endsIn (path : String) : ∃ front last, EndsIn path front last := by
  obtain ⟨first, rest, h⟩ : ∃ first rest, path.splitOn "/" = first :: rest := by
    rw [splitOn_slash]
    cases hparts : path.toList.splitOn '/' with
    | nil => exact absurd hparts (List.splitOn_ne_nil _ _)
    | cons first rest => exact ⟨_, _, rfl⟩
  exact ⟨_, _, first, rest, h, (List.dropLast_append_getLast (List.cons_ne_nil _ _)).symm⟩

/-- The parts of a path have no slashes in them, and only the first can be empty. -/
theorem part_plain {part : String} {behind : List String}
    (h : parts path = front ++ part :: behind) (hroot : front ++ [part] ≠ [""]) :
    part ≠ "" ∧ '/' ∉ part.toList := by
  unfold parts at h
  split at h
  · simp at h
  next first rest hsplit =>
  have hpart : part = first ∧ front = [] ∨
      part ∈ rest.filter fun part => part ≠ "" && part ≠ "." := by
    rcases front with _ | ⟨i, front⟩
    · exact .inl ⟨(List.cons.inj h).1.symm, rfl⟩
    · rw [(List.cons.inj h).2]
      simp
  rcases hpart with ⟨rfl, rfl⟩ | hmem
  · refine ⟨?_, slash_notMem_of_mem_splitOn (hsplit ▸ List.mem_cons_self)⟩
    rintro rfl
    exact hroot rfl
  · obtain ⟨hmem, hne⟩ := List.mem_filter.1 hmem
    have hne : part ≠ "" ∧ part ≠ "." := by simpa using hne
    exact ⟨hne.1, slash_notMem_of_mem_splitOn (hsplit ▸ List.mem_cons_of_mem _ hmem)⟩

theorem fileName?_eq (h : EndsIn path front last) :
    fileName? path = if last ∈ ["", ".", ".."] then none else some last := by
  rw [fileName?, parts_eq_iff.2 h, List.getLast?_concat]
  by_cases hlast : last ∈ ["", ".", ".."]
  · rw [if_pos hlast, Option.filter_eq_none_iff]
    intro part hpart
    obtain rfl := Option.some.inj hpart
    simpa [imp_iff_not_or, or_assoc] using hlast
  · rw [if_neg hlast]
    simpa [Option.filter_eq_some_iff, and_assoc] using hlast

/-! ## Stems and endings -/

theorem takeWhile_ne_dot {cs : List Char} (h : '.' ∉ cs) :
    cs.reverse.takeWhile (· ≠ '.') = cs.reverse := by
  rw [List.takeWhile_eq_self_iff]
  intro c hc
  simpa using ne_of_mem_of_not_mem (List.mem_reverse.1 hc) h

/-- What stands behind the last dot. -/
theorem takeWhile_last_dot {cs : List Char} (h : '.' ∉ cs) (front : List Char) :
    (front ++ '.' :: cs).reverse.takeWhile (· ≠ '.') = cs.reverse := by
  rw [List.reverse_append, List.reverse_cons, List.append_assoc, List.takeWhile_append,
    takeWhile_ne_dot h, if_pos rfl]
  simp

/-- A name with no dot behind its first character has no ending. -/
theorem splitExtension_whole (hdot : '.' ∉ name.toList.tail) :
    splitExtension name = (name, none) := by
  unfold splitExtension
  extract_lets cs after before
  apply if_pos
  change '.' ∉ cs.tail at hdot
  by_cases hfirst : cs.head? = some '.'
  · -- there is nothing in front of the dot
    obtain ⟨rest, hcs⟩ := List.head?_eq_some_iff.1 hfirst
    rw [hcs, List.tail_cons] at hdot
    have hafter : after = rest := by
      simp only [after, hcs]
      rw [← List.nil_append ('.' :: rest), takeWhile_last_dot hdot, List.reverse_reverse]
    simp [before, hafter, hcs]
  · have hnone : '.' ∉ cs := by
      cases hcs : cs with
      | nil => exact List.not_mem_nil
      | cons c rest =>
        simp [hcs] at hfirst hdot
        simp [Ne.symm hfirst, hdot]
    have hafter : after = cs := by
      simp only [after]
      rw [takeWhile_ne_dot hnone, List.reverse_reverse]
    simp [hafter]

/-- A name with an ending is a name, unless it is two dots. -/
theorem cut_not_mem (hstem : stem ≠ "") (h : stem ++ "." ++ ending ≠ "..") :
    stem ++ "." ++ ending ∉ ["", ".", ".."] := by
  have hpos : stem.length ≠ 0 := by simpa using hstem
  have hlong : 2 ≤ (stem ++ "." ++ ending).length := by
    simp only [String.length_append]
    have hone : ".".length = 1 := rfl
    omega
  intro hmem
  simp only [List.mem_cons, List.not_mem_nil, or_false] at hmem
  rcases hmem with heq | heq | heq
  · exact absurd hlong (by rw [heq]; decide)
  · exact absurd hlong (by rw [heq]; decide)
  · exact h heq

/-- A name ends behind its last dot. -/
theorem splitExtension_cut (hstem : stem ≠ "") (hending : '.' ∉ ending.toList) :
    splitExtension (stem ++ "." ++ ending) = (stem, some ending) := by
  unfold splitExtension
  extract_lets cs after before
  have hcs : cs = stem.toList ++ '.' :: ending.toList := by simp [cs]
  have hafter : after = ending.toList := by
    simp only [after]
    rw [hcs, takeWhile_last_dot hending, List.reverse_reverse]
  have hlength : cs.length = stem.toList.length + (ending.toList.length + 1) := by
    rw [hcs, List.length_append, List.length_cons]
  have hbefore : before = stem.toList := by
    have hcount : cs.length - after.length - 1 = stem.toList.length := by
      rw [hafter]
      omega
    simp only [before]
    rw [hcount, hcs, List.take_left]
  have hne : ending.toList.length ≠ cs.length := by omega
  rw [if_neg (by simp [hafter, hbefore, hne, hstem]), hafter, hbefore, String.ofList_toList,
    String.ofList_toList]

/-- Names with an ending, and those without one. -/
theorem whole_or_cut (name : String) : '.' ∉ name.toList.tail ∨
    ∃ stem ending, stem ≠ "" ∧ '.' ∉ ending.toList ∧ name = stem ++ "." ++ ending := by
  by_cases hdot : '.' ∈ name.toList.tail
  · right
    obtain ⟨after, before, hsplit, hlast⟩ := List.eq_append_cons_of_mem (List.mem_reverse.2 hdot)
    have htail := congrArg List.reverse hsplit
    cases hname : name.toList with
    | nil => simp [hname] at hdot
    | cons c rest =>
      rw [hname] at htail
      refine ⟨String.ofList (c :: before.reverse), String.ofList after.reverse, ?_, ?_, ?_⟩
      · simp
      · simpa using hlast
      · rw [← String.toList_inj, hname]
        simpa using htail
  · exact .inl hdot

/-- **The stem of a path** is that of its last part. -/
theorem isStem_iff (h : EndsIn path front last) :
    IsStem last stem ↔ stem = (fileStem? path).getD "diagram" := by
  rw [fileStem?, fileName?_eq h]
  constructor
  · rintro (⟨hstem, hending, hup⟩ | ⟨hname, hdot⟩ | hnone)
    · rw [if_neg (cut_not_mem hstem hup), Option.map_some, splitExtension_cut hstem hending]
      rfl
    · rw [if_neg hname, Option.map_some, splitExtension_whole hdot]
      rfl
    · rw [if_pos hnone]
      rfl
  · rintro rfl
    split
    · next hnone => exact .nameless hnone
    · next hname =>
      rcases whole_or_cut last with hdot | ⟨stem, ending, hstem, hending, rfl⟩
      · rw [Option.map_some, splitExtension_whole hdot]
        exact .whole hname hdot
      · rw [Option.map_some, splitExtension_cut hstem hending]
        refine .cut hstem hending ?_
        intro hup
        simp [hup] at hname

/-- **The ending of a path** is that of its last part. -/
theorem extension?_eq_some_iff (hempty : ending ≠ "") (hdot : '.' ∉ ending.toList) :
    extension? path = some ending ↔ HasEnding path ending := by
  constructor
  · intro h
    obtain ⟨front, last, hlast⟩ := exists_endsIn path
    rw [extension?, fileName?_eq hlast] at h
    split at h
    · cases h
    rcases whole_or_cut last with hwhole | ⟨stem, ending', hstem, hending, rfl⟩
    · rw [Option.bind_some, splitExtension_whole hwhole] at h
      cases h
    · rw [Option.bind_some, splitExtension_cut hstem hending] at h
      cases h
      exact ⟨front, stem, hstem, hlast⟩
  · rintro ⟨front, stem, hstem, hlast⟩
    have hname : stem ++ "." ++ ending ∉ ["", ".", ".."] := by
      refine cut_not_mem hstem ?_
      intro hup
      have hlength := congrArg String.length hup
      have hpos : stem.length ≠ 0 ∧ ending.length ≠ 0 := by simpa using ⟨hstem, hempty⟩
      have hone : ".".length = 1 ∧ "..".length = 2 := ⟨rfl, rfl⟩
      simp only [String.length_append] at hlength
      omega
    rw [extension?, fileName?_eq hlast, if_neg hname, Option.bind_some,
      splitExtension_cut hstem hdot]

/-! ## Files in the place of others -/

theorem endsWith_slash_iff (s : String) : s.endsWith "/" ↔ ['/'] <:+ s.toList := by
  rw [String.endsWith_eq_endsWith_toSlice, String.Slice.endsWith_string_iff]
  simp

/-- A path whose last part is not empty does not end in a slash. -/
theorem not_endsWith_slash {part : String} (hempty : part ≠ "") (hslash : '/' ∉ part.toList)
    (before : String) : ¬ (before ++ part).endsWith "/" := by
  rw [endsWith_slash_iff, String.toList_append]
  rintro ⟨cs, hcs⟩
  rcases List.eq_nil_or_concat part.toList with hnil | ⟨more, c, hmore⟩
  · exact hempty (String.toList_eq_nil_iff.1 hnil)
  · rw [hmore, List.concat_eq_append, ← List.append_assoc] at hcs
    obtain ⟨-, hc⟩ := List.append_inj' hcs rfl
    obtain rfl : '/' = c := List.singleton_inj.1 hc
    exact hslash (by simp [hmore])

theorem join_eq (directory name : String) : join directory name =
    directory ++ (if directory.isEmpty ∨ directory.endsWith "/" then "" else "/") ++ name := by
  unfold join
  by_cases hempty : directory.isEmpty
  · have hnone : directory = "" := by simpa using hempty
    simp [hnone]
  · by_cases hslash : directory.endsWith "/"
    · simp [hempty, hslash]
    · simp [hempty, hslash]

/-- **A name in the place of the last part of a path.** -/
theorem sibling_eq (h : EndsIn path front last) (name : String) :
    sibling path name = "/".intercalate (front ++ [name]) := by
  have hparts := parts_eq_iff.2 h
  rw [sibling, parent, hparts, List.dropLast_concat]
  split
  · -- the root
    have hroot : ("/" : String).endsWith "/" := by simp [endsWith_slash_iff]
    simp [join, hroot]
  · next hroot =>
    rcases List.eq_nil_or_concat front with rfl | ⟨init, part, rfl⟩
    · simp [join]
    · rw [List.concat_eq_append] at hparts hroot ⊢
      rw [List.append_assoc] at hparts
      obtain ⟨hempty, hslash⟩ := part_plain hparts hroot
      obtain ⟨before, hjoined⟩ : ∃ before, "/".intercalate (init ++ [part]) = before ++ part := by
        cases init with
        | nil => exact ⟨"", by simp⟩
        | cons i init =>
          rw [String.intercalate_append_of_ne_nil (List.cons_ne_nil _ _) (List.cons_ne_nil _ _),
            String.intercalate_singleton]
          exact ⟨_, rfl⟩
      have hne : init ++ [part] ≠ [] := by simp
      rw [String.intercalate_append_of_ne_nil hne (List.cons_ne_nil _ _),
        String.intercalate_singleton, hjoined, join, if_neg (by simp [hempty]),
        if_neg (not_endsWith_slash hempty hslash before)]

end PathName

/-! ## Files of diagrams -/

theorem forall₂_eq_map_iff {β γ : Type} {f : β → γ} {xs : List β} {ys : List γ} :
    List.Forall₂ (fun x y => y = f x) xs ys ↔ ys = xs.map f := by
  rw [eq_comm, ← List.forall₂_eq_eq_eq, List.forall₂_map_left_iff]
  simp only [eq_comm]

theorem isSlug_iff {name slug : String} : IsSlug name slug ↔ slug = PathName.slug name := by
  rw [IsSlug, forall₂_eq_map_iff, ← String.toList_inj, PathName.slug, String.toList_map]
  simp

/-- The file of a diagram beside an output in the working directory. -/
theorem FileOf.beside_plain {stem ending name slug : String}
    (hplain : IsPlain (stem ++ "." ++ ending)) (hstem : stem ≠ "") (hending : '.' ∉ ending.toList)
    (hslug : IsSlug name slug) :
    FileOf (stem ++ "." ++ ending) name false (stem ++ "-" ++ slug ++ ".svg") := by
  have hlast : EndsIn (stem ++ "." ++ ending) [] (stem ++ "." ++ ending) :=
    ⟨_, [], hplain.splitOn, rfl⟩
  have hup : stem ++ "." ++ ending ≠ ".." := fun hup => hplain.not_mem (by simp [hup])
  exact .beside hlast (.cut hstem hending hup) hslug

section

variable {output name path : String}

theorem fileOf_within_iff : FileOf output name true path ↔
    path = PathName.join output (PathName.slug name ++ "." ++ Format.extension .svg) := by
  rw [PathName.join_eq]
  constructor
  · rintro ⟨hslug⟩
    obtain rfl := isSlug_iff.1 hslug
    simp [Format.extension, String.append_assoc]
  · rintro rfl
    have hslug : IsSlug name (PathName.slug name) := isSlug_iff.2 rfl
    have hwithin : FileOf output name true _ := .within hslug
    simpa [Format.extension, String.append_assoc] using hwithin

theorem fileOf_beside_iff : FileOf output name false path ↔
    path = PathName.sibling output ((PathName.fileStem? output).getD "diagram" ++ "-" ++
      (PathName.slug name ++ "." ++ Format.extension .svg)) := by
  constructor
  · rintro (_ | ⟨hlast, hstem, hslug⟩)
    obtain rfl := isSlug_iff.1 hslug
    obtain rfl := (PathName.isStem_iff hlast).1 hstem
    rw [PathName.sibling_eq hlast]
    simp [Format.extension, String.append_assoc]
  · rintro rfl
    obtain ⟨front, last, hlast⟩ := PathName.exists_endsIn output
    have hslug : IsSlug name (PathName.slug name) := isSlug_iff.2 rfl
    have hbeside := FileOf.beside hlast ((PathName.isStem_iff hlast).2 rfl) hslug
    rw [PathName.sibling_eq hlast]
    simpa [Format.extension, String.append_assoc] using hbeside

end

/-- **The files of several diagrams**: the paths that they go to lead to them, and no others do. -/
theorem outputs_eq_iff {output : String} {isDirectory : Bool} {names paths : List String} :
    outputs output isDirectory .svg names = paths ↔
      List.Forall₂ (fun name path => FileOf output name isDirectory path) names paths := by
  rw [eq_comm]
  cases isDirectory with
  | true =>
    rw [outputs, if_pos rfl, ← forall₂_eq_map_iff]
    simp only [fileOf_within_iff]
  | false =>
    rw [outputs, if_neg Bool.false_ne_true, ← forall₂_eq_map_iff]
    simp only [fileOf_beside_iff]

end SyntaxDiagram.CommandLine
