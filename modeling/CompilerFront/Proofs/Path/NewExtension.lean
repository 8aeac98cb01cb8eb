import CompilerFront.Proofs.Path.FileName

set_option autoImplicit false

namespace CompilerFront.Path

theorem name_of_component? {piece name : Text} (named : component? piece = some (.name name)) :
    name = piece ∧ piece ≠ [] := by
  unfold component? at named
  split at named
  · cases named
  · rename_i solid
    split at named
    · cases named
    · split at named
      · cases named
      · cases named
        exact ⟨rfl, solid⟩

theorem component?_of_long {piece : Text} (long : 2 < piece.length) :
    component? piece = some (.name piece) := by
  have notEmpty : piece ≠ [] := by rintro rfl; simp at long
  have notHere : piece ≠ ['.'] := by rintro rfl; simp at long
  have notUp : piece ≠ ['.', '.'] := by rintro rfl; simp at long
  simp only [component?, notEmpty, notHere, notUp, ↓reduceIte]

/-- The part of a path in front of its file name: nothing, or it ends in a separator. -/
def IsFront (front : Text) : Prop := front = [] ∨ ∃ above, front = above ++ ['/']

theorem body_of_fileName? {path : Path} {name : Text} (named : path.fileName? = some name) :
    name ≠ [] ∧ '/' ∉ name ∧ ∃ front, IsFront front ∧ path.body = front ++ name := by
  rw [fileName?_eq_bind] at named
  obtain ⟨step, last, shown⟩ := Option.bind_eq_some_iff.mp named
  cases step with
  | name text =>
      cases shown
      obtain ⟨rfl, solid⟩ := name_of_component? last
      have whole : (dropTrail path.text.reverse).takeWhile (· ≠ '/') ++
          (dropTrail path.text.reverse).dropWhile (· ≠ '/') = dropTrail path.text.reverse :=
        List.takeWhile_append_dropWhile
      refine ⟨solid, ?_, ((dropTrail path.text.reverse).dropWhile (· ≠ '/')).reverse, ?_, ?_⟩
      · intro inside
        have kept := List.all_eq_true.mp List.all_takeWhile _ (List.mem_reverse.mp inside)
        simp at kept
      · cases behind : (dropTrail path.text.reverse).dropWhile (· ≠ '/') with
        | nil => exact Or.inl rfl
        | cons c rest =>
            have fails := List.head?_dropWhile_not (· ≠ '/') (dropTrail path.text.reverse)
            rw [behind] at fails
            have slash : c = '/' := by simpa using fails
            exact Or.inr ⟨rest.reverse, by rw [slash, List.reverse_cons]⟩
      · rw [body, lastPiece, ← List.reverse_append, whole]
  | root => cases shown
  | here => cases shown
  | up => cases shown

theorem fileName?_append {front piece : Text} (above : IsFront front) (separated : '/' ∉ piece)
    (named : component? piece = some (.name piece)) :
    (Path.mk (front ++ piece)).fileName? = some piece := by
  rw [fileName?_eq_components]
  rcases above with rfl | ⟨above, rfl⟩
  · rw [List.nil_append, components_piece separated, named]
    rfl
  · rw [List.append_assoc, List.singleton_append, components_append_cons _ _ separated]
    simp [named, Component.name?]

theorem splitName_stem_leads (name : Text) : (splitName name).1 <+: name := by
  unfold splitName
  dsimp only
  split
  · exact List.prefix_refl name
  · refine List.reverse_suffix.mp ?_
    rw [List.reverse_reverse]
    exact (List.drop_suffix 1 _).trans (List.dropWhile_suffix _)

theorem splitName_stem_ne_nil {name : Text} (solid : name ≠ []) : (splitName name).1 ≠ [] := by
  unfold splitName
  dsimp only
  split
  · exact solid
  · assumption

theorem splitName_append {stem extension : Text} (solid : stem ≠ []) (dotless : '.' ∉ extension) :
    splitName (stem ++ '.' :: extension) = (stem, some extension) := by
  have all : ∀ c ∈ extension.reverse, decide (c ≠ '.') = true := by
    intro c inside
    rw [decide_eq_true_eq]
    rintro rfl
    exact dotless (List.mem_reverse.mp inside)
  have backwards : (stem ++ '.' :: extension).reverse = extension.reverse ++ '.' :: stem.reverse := by
    simp
  simp only [splitName, backwards, List.takeWhile_append_of_pos all,
    List.dropWhile_append_of_pos all]
  simp [solid]

/-- An extension with its dot. An empty one has none. -/
def dotted (extension : Text) : Text := if extension = [] then [] else '.' :: extension

theorem setExtension_of_body {path : Path} {front name : Text}
    (named : path.fileName? = some name) (body_eq : path.body = front ++ name) (extension : Text) :
    path.setExtension extension = ⟨front ++ ((splitName name).1 ++ dotted extension)⟩ := by
  obtain ⟨tail, split⟩ := splitName_stem_leads name
  have cut : path.body.length - (name.length - (splitName name).1.length) =
      (front ++ (splitName name).1).length := by
    have total := congrArg List.length split
    rw [List.length_append] at total
    rw [body_eq, List.length_append, List.length_append]
    omega
  have kept : path.body.take (path.body.length - (name.length - (splitName name).1.length)) =
      front ++ (splitName name).1 := by
    have regrouped : front ++ name = front ++ (splitName name).1 ++ tail := by
      rw [List.append_assoc, split]
    rw [cut, body_eq, regrouped, List.take_left]
  simp only [setExtension, named, kept, dotted, List.append_assoc]

theorem extension?_setExtension (path : Path) {extension : Text} (solid : extension ≠ [])
    (separated : '/' ∉ extension) (dotless : '.' ∉ extension) :
    (path.setExtension extension).extension? =
      if path.fileName?.isSome then some extension else none := by
  cases named : path.fileName? with
  | none => simp [setExtension, extension?, named]
  | some name =>
      obtain ⟨nameSolid, nameSeparated, front, above, body_eq⟩ := body_of_fileName? named
      have set : path.setExtension extension =
          ⟨front ++ ((splitName name).1 ++ '.' :: extension)⟩ := by
        rw [setExtension_of_body named body_eq, dotted, if_neg solid]
      have stemSolid := splitName_stem_ne_nil nameSolid
      have joined : '/' ∉ (splitName name).1 ++ '.' :: extension := by
        intro inside
        rcases List.mem_append.mp inside with left | right
        · exact nameSeparated ((splitName_stem_leads name).subset left)
        · rcases List.mem_cons.mp right with dot | right
          · cases dot
          · exact separated right
      have long : 2 < ((splitName name).1 ++ '.' :: extension).length := by
        have stemLong := List.length_pos_iff.mpr stemSolid
        have extensionLong := List.length_pos_iff.mpr solid
        rw [List.length_append, List.length_cons]
        omega
      simp only [extension?, set, fileName?_append above joined (component?_of_long long),
        Option.bind_some, splitName_append stemSolid dotless, Option.isSome_some, ↓reduceIte]

def directory (path : Path) : List Component := path.components.dropLast

/-- The components of a piece in a directory. A `.` is a component only where nothing stands in front
of it. -/
def componentsIn (directory : List Component) (piece : Text) : List Component :=
  directory ++ (component? piece).toList.filter fun step => directory.isEmpty || step ≠ .here

/-- Whether the extension is cut off down to `..`. Something behind the file name, such as a separator
at the end, is cut instead. -/
def LosesName (path : Path) : Prop := path.stem? = some ['.'] ∧ path.body = path.text

instance (path : Path) : Decidable path.LosesName := inferInstanceAs (Decidable (_ ∧ _))

/-- The last piece of a path under a new extension. -/
def pieceUnder (path : Path) (extension : Text) : Text :=
  if path.LosesName then ['.', '.']
  else path.stem?.getD [] ++ dotted extension

theorem components_of_fileName? {path : Path} {name : Text} (named : path.fileName? = some name) :
    path.components = path.directory ++ [.name name] := by
  rw [fileName?_eq_components] at named
  obtain ⟨step, last, shown⟩ := Option.bind_eq_some_iff.mp named
  cases step with
  | name text =>
      cases shown
      obtain ⟨front, whole⟩ := List.getLast?_eq_some_iff.mp last
      rw [directory, whole, List.dropLast_concat]
  | root => cases shown
  | here => cases shown
  | up => cases shown

theorem component?_of_fileName? {path : Path} {name : Text}
    (named : path.fileName? = some name) : component? name = some (.name name) := by
  rw [fileName?_eq_bind] at named
  obtain ⟨step, last, shown⟩ := Option.bind_eq_some_iff.mp named
  cases step with
  | name text =>
      cases shown
      obtain ⟨rfl, -⟩ := name_of_component? last
      exact last
  | root => cases shown
  | here => cases shown
  | up => cases shown

/-- A path with a file name is what stands in front of the name and the name; another piece behind
the same front lies in the same directory. -/
theorem exists_front {path : Path} {name : Text} (named : path.fileName? = some name) :
    ∃ front, IsFront front ∧ path.body = front ++ name ∧
      ∀ piece, '/' ∉ piece →
        (Path.mk (front ++ piece)).components = componentsIn path.directory piece := by
  obtain ⟨solid, separated, front, above, body_eq⟩ := body_of_fileName? named
  have isName := component?_of_fileName? named
  have started : path.body ≠ [] := by simp [body_eq, solid]
  refine ⟨front, above, body_eq, fun piece apart => ?_⟩
  rw [directory, ← components_body started, body_eq]
  rcases above with rfl | ⟨above, rfl⟩
  · rw [List.nil_append, List.nil_append, components_piece separated, components_piece apart, isName]
    exact (List.filter_eq_self.mpr fun _ _ => rfl).symm
  · rw [List.append_assoc, List.append_assoc, List.singleton_append, List.singleton_append,
      components_append_cons _ _ separated, components_append_cons _ _ apart, isName]
    have filled : (if above = [] then [.root] else (Path.mk above).components) ≠ [] := by
      split
      · exact List.cons_ne_nil _ _
      · rename_i solid
        exact components_ne_nil solid
    generalize (if above = [] then [.root] else (Path.mk above).components) = front at filled ⊢
    simp [componentsIn, List.isEmpty_eq_false_iff.mpr filled]

theorem splitName_cases (name : Text) :
    splitName name = (name, none) ∨
      ∃ stem extension, name = stem ++ '.' :: extension ∧ '.' ∉ extension ∧
        splitName name = (stem, some extension) := by
  have whole : name.reverse.takeWhile (· ≠ '.') ++ name.reverse.dropWhile (· ≠ '.') =
      name.reverse := List.takeWhile_append_dropWhile
  cases behind : name.reverse.dropWhile (· ≠ '.') with
  | nil => exact .inl (by simp only [splitName, behind, List.drop_nil, List.reverse_nil, ↓reduceIte])
  | cons c backwards =>
      have fails := List.head?_dropWhile_not (· ≠ '.') name.reverse
      rw [behind] at fails
      have dot : c = '.' := by simpa using fails
      subst dot
      by_cases solid : backwards = []
      · refine .inl ?_
        simp only [splitName, behind, solid, List.drop_succ_cons, List.drop_zero, List.reverse_nil,
          ↓reduceIte]
      · refine .inr ⟨backwards.reverse, (name.reverse.takeWhile (· ≠ '.')).reverse, ?_, ?_, ?_⟩
        · rw [behind] at whole
          have forward := congrArg List.reverse whole
          rw [List.reverse_reverse, List.reverse_append, List.reverse_cons, List.append_assoc,
            List.singleton_append] at forward
          exact forward.symm
        · intro inside
          have kept := List.all_eq_true.mp List.all_takeWhile _ (List.mem_reverse.mp inside)
          simp at kept
        · simp only [splitName, behind, List.drop_succ_cons, List.drop_zero,
            List.reverse_eq_nil_iff, solid, ↓reduceIte]

/-- A piece of more than one character is a name, unless it is `..`. -/
theorem component?_append_cons {stem rest : Text} {c : Char} (solid : stem ≠ [])
    (notUp : stem ++ c :: rest ≠ ['.', '.']) :
    component? (stem ++ c :: rest) = some (.name (stem ++ c :: rest)) := by
  have notEmpty : stem ++ c :: rest ≠ [] := by simp
  have notHere : stem ++ c :: rest ≠ ['.'] := by
    obtain ⟨d, others, rfl⟩ := List.exists_cons_of_ne_nil solid
    simp
  simp only [component?, notEmpty, notHere, notUp, ↓reduceIte]

theorem fileName?_append_up {front : Text} (above : IsFront front) :
    (Path.mk (front ++ ['.', '.'])).fileName? = none := by
  have separated : '/' ∉ ['.', '.'] := by decide
  rw [fileName?_eq_components]
  rcases above with rfl | ⟨above, rfl⟩
  · rfl
  · rw [List.append_assoc, List.singleton_append, components_append_cons _ _ separated]
    simp [component?, Component.name?]

theorem setExtension_append {front stem present : Text} (above : IsFront front)
    (separated : '/' ∉ stem ++ '.' :: present) (solid : stem ≠ []) (dotless : '.' ∉ present)
    (notUp : stem ++ '.' :: present ≠ ['.', '.']) (extension : Text) :
    (Path.mk (front ++ (stem ++ '.' :: present))).setExtension extension =
      ⟨front ++ (stem ++ dotted extension)⟩ := by
  have named := component?_append_cons solid notUp
  have notHere : stem ++ '.' :: present ≠ ['.'] := by
    intro here
    rw [here] at named
    cases named
  have body_eq : (Path.mk (front ++ (stem ++ '.' :: present))).body =
      front ++ (stem ++ '.' :: present) :=
    body_append_piece separated (by simp) notHere
  rw [setExtension_of_body (fileName?_append above separated named) body_eq,
    splitName_append solid dotless]

theorem setExtension_append_up {front : Text} (above : IsFront front) (extension : Text) :
    (Path.mk (front ++ ['.', '.'])).setExtension extension = ⟨front ++ ['.', '.']⟩ := by
  simp [setExtension, fileName?_append_up above]

theorem eq_dot_of_append_eq_up {stem present trail : Text} (solid : stem ≠ [])
    (long : trail.length < present.length)
    (up : stem ++ '.' :: present.take trail.length = ['.', '.']) : stem = ['.'] ∧ trail = [] := by
  obtain ⟨c, others, rfl⟩ := List.exists_cons_of_ne_nil solid
  have counted := congrArg List.length up
  simp only [List.length_append, List.length_cons, List.length_take, List.length_nil] at counted
  have none : others = [] := List.eq_nil_of_length_eq_zero (by omega)
  have bare : trail = [] := List.eq_nil_of_length_eq_zero (by omega)
  subst none
  simp only [List.cons_append, List.cons.injEq] at up
  exact ⟨by rw [up.1], bare⟩

/-- Where the trail is shorter than the extension, a part of the extension is left that is as long as
the trail. -/
theorem take_text_eq {path : Path} {front stem present trail : Text}
    (body_eq : path.body = front ++ (stem ++ '.' :: present)) (text_eq : path.text = path.body ++ trail)
    (long : trail.length < present.length) :
    path.text.take (path.text.length - present.length) =
      front ++ (stem ++ '.' :: present.take trail.length) := by
  have regrouped : path.text = (front ++ (stem ++ ['.'])) ++ (present ++ trail) := by
    rw [text_eq, body_eq]
    simp
  have count : path.text.length - present.length =
      (front ++ (stem ++ ['.'])).length + trail.length := by
    rw [regrouped]
    simp only [List.length_append]
    omega
  rw [count, regrouped, List.take_length_add_append, List.take_append_of_le_length (Nat.le_of_lt long)]
  simp

section

variable {path : Path} {front name trail : Text} (named : path.fileName? = some name)
include named

theorem stem?_eq : path.stem? = some (splitName name).1 := by
  rw [stem?, named]
  rfl

theorem extension?_eq : path.extension? = (splitName name).2 := by
  rw [extension?, named]
  rfl

theorem losesName_iff (text_eq : path.text = path.body ++ trail) :
    path.LosesName ↔ (splitName name).1 = ['.'] ∧ trail = [] := by
  rw [LosesName, stem?_eq named, text_eq]
  simp

theorem pieceUnder_of_not_losesName (keeps : ¬ path.LosesName) (extension : Text) :
    path.pieceUnder extension = (splitName name).1 ++ dotted extension := by
  rw [pieceUnder, if_neg keeps, stem?_eq named]
  rfl

/-- A path loses its name only together with all of an extension. -/
theorem not_losesName_of_le (text_eq : path.text = path.body ++ trail)
    (short : (path.extension?.getD []).length ≤ trail.length) : ¬ path.LosesName := by
  have isName := component?_of_fileName? named
  rw [losesName_iff named text_eq]
  rintro ⟨dot, rfl⟩
  rw [extension?_eq named] at short
  rcases splitName_cases name with whole | ⟨stem, present, shape, -, cut⟩
  · rw [whole] at dot
    have name_eq : name = ['.'] := dot
    rw [name_eq] at isName
    cases isName
  · rw [cut] at dot short
    have stem_eq : stem = ['.'] := dot
    have none : present = [] := List.eq_nil_of_length_eq_zero (Nat.le_zero.mp short)
    rw [shape, stem_eq, none] at isName
    cases isName

/-- A path under a new extension: another piece stands in place of its file name. -/
theorem withExtension_of_fileName? (above : IsFront front) (body_eq : path.body = front ++ name)
    (extension : Text) :
    path.withExtension extension = ⟨front ++ path.pieceUnder extension⟩ := by
  obtain ⟨trail, text_eq, untouched⟩ := exists_trail_behind path
  by_cases short : (path.extension?.getD []).length ≤ trail.length
  · -- Only a part of the trail is cut off.
    obtain ⟨sameBody, sameName⟩ := untouched _ short
    rw [pieceUnder_of_not_losesName named (not_losesName_of_le named text_eq short)]
    exact setExtension_of_body (sameName.trans named) (sameBody.trans body_eq) extension
  · -- The trail goes, and with it the end of the extension.
    obtain ⟨solid, separated, -⟩ := body_of_fileName? named
    rw [extension?_eq named] at short
    rcases splitName_cases name with whole | ⟨stem, present, rfl, dotless, cut⟩
    · rw [whole] at short
      exact absurd (Nat.zero_le _) short
    · have stemSolid : stem ≠ [] := by
        have started := splitName_stem_ne_nil solid
        rwa [cut] at started
      rw [cut] at short
      have left := take_text_eq body_eq text_eq (Nat.lt_of_not_le short)
      have present_eq : (path.extension?.getD []).length = present.length := by
        rw [extension?_eq named, cut]
        rfl
      rw [withExtension]
      simp only [present_eq, left]
      by_cases lost : path.LosesName
      · obtain ⟨dot, none⟩ := (losesName_iff named text_eq).mp lost
        rw [cut] at dot
        have stem_eq : stem = ['.'] := dot
        rw [pieceUnder, if_pos lost, stem_eq, none]
        exact setExtension_append_up above extension
      · have notUp : stem ++ '.' :: present.take trail.length ≠ ['.', '.'] := by
          intro up
          refine lost ((losesName_iff named text_eq).mpr ?_)
          rw [cut]
          exact eq_dot_of_append_eq_up stemSolid (Nat.lt_of_not_le short) up
        have begins : stem ++ '.' :: present.take trail.length <+: stem ++ '.' :: present :=
          (List.prefix_append_right_inj stem).mpr
            (List.cons_prefix_cons.mpr ⟨rfl, List.take_prefix _ _⟩)
        rw [setExtension_append above (fun inside => separated (begins.subset inside)) stemSolid
          (fun inside => dotless (List.mem_of_mem_take inside)) notUp,
          pieceUnder_of_not_losesName named lost, cut]

theorem separator_not_mem_pieceUnder {extension : Text} (separated : '/' ∉ extension) :
    '/' ∉ path.pieceUnder extension := by
  by_cases lost : path.LosesName
  · rw [pieceUnder, if_pos lost]
    decide
  · rw [pieceUnder_of_not_losesName named lost, dotted]
    intro inside
    rcases List.mem_append.mp inside with left | right
    · exact (body_of_fileName? named).2.1 ((splitName_stem_leads name).subset left)
    · split at right
      · cases right
      · exact separated (List.mem_of_ne_of_mem (by decide) right)

/-- A new extension keeps the directory and puts another piece in place of the file name. -/
theorem components_withExtension {extension : Text} (separated : '/' ∉ extension) :
    (path.withExtension extension).components =
      componentsIn path.directory (path.pieceUnder extension) := by
  obtain ⟨front, above, body_eq, placed⟩ := exists_front named
  rw [withExtension_of_fileName? named above body_eq]
  exact placed _ (separator_not_mem_pieceUnder named separated)

/-- The piece under a new extension is the old name exactly if the extension is the old one. -/
theorem pieceUnder_eq_name_iff {extension : Text} :
    path.pieceUnder extension = name ↔
      ¬ path.LosesName ∧ path.extension? = if extension = [] then none else some extension := by
  by_cases lost : path.LosesName
  · have notUp : name ≠ ['.', '.'] := by
      rintro rfl
      cases component?_of_fileName? named
    simp [pieceUnder, lost, notUp.symm]
  · rw [pieceUnder_of_not_losesName named lost, extension?_eq named, dotted]
    rcases splitName_cases name with whole | ⟨stem, present, rfl, -, cut⟩
    · by_cases bare : extension = [] <;> simp [whole, lost, bare]
    · rw [cut]
      by_cases bare : extension = [] <;> simp [lost, bare, eq_comm]

theorem componentsIn_directory_eq_iff (piece : Text) :
    componentsIn path.directory piece = path.components ↔ piece = name := by
  rw [components_of_fileName? named, componentsIn, List.append_right_inj]
  constructor
  · intro alike
    have inside : Component.name name ∈ (component? piece).toList :=
      List.filter_sublist.subset (alike ▸ List.mem_singleton_self _)
    exact (name_of_component? (Option.mem_toList.mp inside)).1.symm
  · rintro rfl
    simp [component?_of_fileName? named]

end

theorem withExtension_of_fileName?_eq_none {path : Path} (unnamed : path.fileName? = none)
    (extension : Text) : path.withExtension extension = path := by
  have whole : path.text.take (path.text.length - (path.extension?.getD []).length) = path.text := by
    simp [extension?, unnamed]
  rw [withExtension, whole, setExtension]
  simp only [unnamed]

theorem componentsIn_pieceUnder {path : Path} {stem extension : Text}
    (stemmed : path.stem? = some stem) (solid : stem ≠ []) (extended : extension ≠ []) :
    componentsIn path.directory (path.pieceUnder extension) =
      path.directory ++
        [if path.LosesName then .up else .name (stem ++ '.' :: extension)] := by
  by_cases lost : path.LosesName
  · simp [componentsIn, pieceUnder, lost, component?]
  · have notUp : stem ++ '.' :: extension ≠ ['.', '.'] := by
      intro up
      have counted := congrArg List.length up
      have first := List.length_pos_iff.mpr solid
      have second := List.length_pos_iff.mpr extended
      simp only [List.length_append, List.length_cons, List.length_nil] at counted
      omega
    simp [componentsIn, pieceUnder, lost, stemmed, dotted, extended,
      component?_append_cons solid notUp]

/-- Replacing the extension leaves a path at its place exactly if there is no file name or the
extension, or the lack of one, is there already. -/
theorem withExtension_same_iff {path : Path} {extension : Text} (separated : '/' ∉ extension) :
    (path.withExtension extension).same path = true ↔
      path.fileName? = none ∨
        ¬ path.LosesName ∧ path.extension? = if extension = [] then none else some extension := by
  cases named : path.fileName? with
  | none => simp [withExtension_of_fileName?_eq_none named]
  | some name =>
      rw [same_iff, components_withExtension named separated, componentsIn_directory_eq_iff named,
        pieceUnder_eq_name_iff named]
      simp

end CompilerFront.Path
