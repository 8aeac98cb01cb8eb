import CompilerFront.Language
import CompilerFront.Path

set_option autoImplicit false

namespace CompilerFront

namespace Path

def Component.name? : Component → Option Text
  | .name text => some text
  | _ => none

theorem fileName?_eq_bind (path : Path) :
    path.fileName? = (component? path.lastPiece).bind Component.name? := by
  unfold fileName?
  cases component? path.lastPiece with
  | none => rfl
  | some step => cases step <;> rfl

/-- The components that a text with at least one separator in it adds behind the last one. -/
theorem components_append_cons (front piece : Text) (separated : '/' ∉ piece) :
    (Path.mk (front ++ '/' :: piece)).components =
      (if front = [] then [.root] else (Path.mk front).components) ++
        ((component? piece).toList).filter (· ≠ .here) := by
  obtain ⟨first, rest, started⟩ := List.exists_cons_of_ne_nil (List.splitOn_ne_nil '/' front)
  have pieces : (front ++ '/' :: piece).splitOn '/' = first :: (rest ++ [piece]) := by
    rw [List.splitOn_append_cons_self, List.splitOn_eq_singleton separated, started, List.cons_append]
  have last : [piece].filterMap component? = (component? piece).toList := by
    cases shape : component? piece <;> simp [shape]
  cases front with
  | nil =>
      simp only [List.splitOn_nil, List.cons.injEq] at started
      obtain ⟨rfl, rfl⟩ := started
      simp only [List.nil_append] at pieces
      simp [components, pieces, isAbsolute, last]
  | cons c front =>
      have absolute : (Path.mk (c :: front ++ '/' :: piece)).isAbsolute =
          (Path.mk (c :: front)).isAbsolute := rfl
      simp only [components, pieces, started, absolute, List.filterMap_append, last,
        List.filter_append]
      split <;> simp

theorem components_piece {piece : Text} (separated : '/' ∉ piece) :
    (Path.mk piece).components = (component? piece).toList := by
  have relative : (Path.mk piece).isAbsolute = false := by
    cases piece with
    | nil => rfl
    | cons c rest =>
        have other : c ≠ '/' := Ne.symm (List.ne_of_not_mem_cons separated)
        simp [isAbsolute, other]
  simp [components, List.splitOn_eq_singleton separated, relative]

/-- A separator or an inner `.` at the end of a path leaves its last name alone. -/
theorem lastName_append_trail (front piece : Text) (idle : piece = [] ∨ piece = ['.']) :
    (Path.mk (front ++ '/' :: piece)).components.getLast?.bind Component.name? =
      (Path.mk front).components.getLast?.bind Component.name? := by
  have separated : '/' ∉ piece := by rcases idle with rfl | rfl <;> simp
  have adds : (component? piece).toList.filter (· ≠ .here) = [] := by
    rcases idle with rfl | rfl <;> simp [component?]
  rw [components_append_cons front piece separated, adds, List.append_nil]
  split
  · rename_i empty
    subst empty
    rfl
  · rfl

theorem lastName_of_no_trail (backwards : Text) (noSlash : ∀ rest, backwards ≠ '/' :: rest)
    (noDot : ∀ rest, backwards ≠ '.' :: '/' :: rest) :
    (component? (backwards.takeWhile (· ≠ '/')).reverse).bind Component.name? =
      (Path.mk backwards.reverse).components.getLast?.bind Component.name? := by
  have whole : backwards.takeWhile (· ≠ '/') ++ backwards.dropWhile (· ≠ '/') = backwards :=
    List.takeWhile_append_dropWhile
  have separated : '/' ∉ (backwards.takeWhile (· ≠ '/')).reverse := by
    intro inside
    have kept := List.all_eq_true.mp List.all_takeWhile _ (List.mem_reverse.mp inside)
    simp at kept
  generalize piece_eq : (backwards.takeWhile (· ≠ '/')).reverse = piece at separated ⊢
  cases behind : backwards.dropWhile (· ≠ '/') with
  | nil =>
      rw [behind, List.append_nil] at whole
      have text : backwards.reverse = piece := by rw [← piece_eq, whole]
      rw [text, components_piece separated]
      cases component? piece <;> rfl
  | cons c rest =>
      have slash : c = '/' := by
        have fails := List.head?_dropWhile_not (· ≠ '/') backwards
        rw [behind] at fails
        simpa using fails
      subst slash
      have text : backwards.reverse = rest.reverse ++ '/' :: piece := by
        rw [← whole, behind, ← piece_eq, List.reverse_append, List.reverse_cons,
          List.append_assoc, List.singleton_append]
      have notEmpty : piece ≠ [] := by
        intro empty
        have none := List.reverse_eq_nil_iff.mp (piece_eq.trans empty)
        rw [none, behind] at whole
        exact noSlash rest whole.symm
      have notHere : piece ≠ ['.'] := by
        intro here
        have dot := List.reverse_eq_iff.mp (piece_eq.trans here)
        rw [dot, behind] at whole
        exact noDot rest whole.symm
      rw [text, components_append_cons _ _ separated]
      simp only [component?, notEmpty, notHere, ↓reduceIte]
      split <;> simp [Component.name?]

/-- The file name is the last component, if that is a name. -/
theorem fileName?_eq_components (path : Path) :
    path.fileName? = path.components.getLast?.bind Component.name? := by
  have backwards : ∀ text : Text,
      (component? ((dropTrail text).takeWhile (· ≠ '/')).reverse).bind Component.name? =
        (Path.mk text.reverse).components.getLast?.bind Component.name? := by
    intro text
    fun_induction dropTrail text with
    | case1 rest ih =>
        rw [ih, List.reverse_cons, lastName_append_trail _ _ (Or.inl rfl)]
    | case2 rest ih =>
        rw [ih, List.reverse_cons, List.reverse_cons, List.append_assoc, List.singleton_append,
          lastName_append_trail _ _ (Or.inr rfl)]
    | case3 text noSlash noDot =>
        exact lastName_of_no_trail text noSlash noDot
  rw [fileName?_eq_bind]
  simpa only [lastPiece, List.reverse_reverse] using backwards path.text.reverse

theorem fileName?_eq_of_same {first second : Path} (same : first.same second = true) :
    first.fileName? = second.fileName? := by
  rw [fileName?_eq_components, fileName?_eq_components, same_iff.mp same]

theorem kind_eq_of_same {first second : Path} (same : first.same second = true) :
    first.kind = second.kind := by
  simp only [kind, extension?, fileName?_eq_of_same same]

theorem isLexerInput_eq_of_same {first second : Path} (same : first.same second = true) :
    first.isLexerInput = second.isLexerInput := by
  simp only [isLexerInput, kind_eq_of_same same]

/-- Separators and `.` steps behind a path, read backwards. -/
inductive Trail : Text → Prop
  | nil : Trail []
  | separator {rest : Text} (trail : Trail rest) : Trail ('/' :: rest)
  | step {rest : Text} (trail : Trail rest) : Trail ('.' :: '/' :: rest)

theorem exists_trail (backwards : Text) :
    ∃ trail, Trail trail ∧ backwards = trail ++ dropTrail backwards := by
  fun_induction dropTrail backwards with
  | case1 rest ih =>
      obtain ⟨trail, isTrail, split⟩ := ih
      exact ⟨'/' :: trail, .separator isTrail, congrArg ('/' :: ·) split⟩
  | case2 rest ih =>
      obtain ⟨trail, isTrail, split⟩ := ih
      exact ⟨'.' :: '/' :: trail, .step isTrail, congrArg ('.' :: '/' :: ·) split⟩
  | case3 backwards noSlash noDot => exact ⟨[], .nil, rfl⟩

theorem Trail.dropTrail_append {trail : Text} (isTrail : Trail trail) (rest : Text) :
    dropTrail (trail ++ rest) = dropTrail rest := by
  induction isTrail with
  | nil => rfl
  | separator trail ih => simpa [dropTrail] using ih
  | step trail ih => simpa [dropTrail] using ih

theorem Trail.drop {trail : Text} (isTrail : Trail trail) (count : Nat) :
    Trail (trail.drop count) := by
  induction isTrail generalizing count with
  | nil => simpa using Trail.nil
  | separator trail ih =>
      cases count with
      | zero => exact .separator trail
      | succ count => exact ih count
  | step trail ih =>
      match count with
      | 0 => exact .step trail
      | 1 => exact .separator trail
      | count + 2 => exact ih count

theorem dropTrail_dropTrail (backwards : Text) :
    dropTrail (dropTrail backwards) = dropTrail backwards := by
  fun_induction dropTrail backwards with
  | case1 rest ih => exact ih
  | case2 rest ih => exact ih
  | case3 backwards noSlash noDot =>
      unfold dropTrail
      split
      · exact absurd rfl (noSlash _)
      · exact absurd rfl (noDot _)
      · rfl

theorem dropTrail_drop {trail : Text} (isTrail : Trail trail) (rest : Text) {count : Nat}
    (short : count ≤ trail.length) : dropTrail ((trail ++ rest).drop count) = dropTrail rest := by
  rw [List.drop_append_of_le_length short, (isTrail.drop count).dropTrail_append]

/-- A path is its body with a trail behind it. Cutting off a part of the trail leaves the body and the
file name alone. -/
theorem exists_trail_behind (path : Path) :
    ∃ trail : Text, path.text = path.body ++ trail ∧
      ∀ count ≤ trail.length,
        (Path.mk (path.text.take (path.text.length - count))).body = path.body ∧
          (Path.mk (path.text.take (path.text.length - count))).fileName? = path.fileName? := by
  obtain ⟨trail, isTrail, split⟩ := exists_trail path.text.reverse
  have whole : path.text = path.body ++ trail.reverse := by
    have forward := congrArg List.reverse split
    rwa [List.reverse_reverse, List.reverse_append] at forward
  refine ⟨trail.reverse, whole, fun count short => ?_⟩
  rw [List.length_reverse] at short
  have fits : count ≤ path.text.length := by
    rw [whole, List.length_append, List.length_reverse]
    omega
  have backwards : dropTrail (path.text.take (path.text.length - count)).reverse =
      dropTrail path.text.reverse :=
    calc dropTrail (path.text.take (path.text.length - count)).reverse
      _ = dropTrail (path.text.reverse.drop count) := by
          rw [List.reverse_take, Nat.sub_sub_self fits]
      _ = dropTrail ((trail ++ dropTrail path.text.reverse).drop count) := by rw [← split]
      _ = dropTrail (dropTrail path.text.reverse) := dropTrail_drop isTrail _ short
      _ = dropTrail path.text.reverse := dropTrail_dropTrail _
  constructor
  · simp only [body, backwards]
  · simp only [fileName?, lastPiece, backwards]

/-- A text that does not end in a separator or in a `.` behind one has no trail. -/
theorem dropTrail_append_piece {piece front : Text} (separated : '/' ∉ piece) (solid : piece ≠ [])
    (notHere : piece ≠ ['.']) : dropTrail (piece.reverse ++ front) = piece.reverse ++ front := by
  obtain ⟨c, rest, shape⟩ := List.exists_cons_of_ne_nil (List.reverse_ne_nil_iff.mpr solid)
  have outside : '/' ∉ c :: rest := by rwa [← shape, List.mem_reverse]
  have first : c ≠ '/' := (List.ne_of_not_mem_cons outside).symm
  rw [shape, List.cons_append]
  cases rest with
  | nil =>
      have notDot : c ≠ '.' := by
        rintro rfl
        exact notHere (List.reverse_eq_iff.mp shape)
      simp [dropTrail, first, notDot]
  | cons d rest =>
      have second : d ≠ '/' :=
        (List.ne_of_not_mem_cons (List.not_mem_of_not_mem_cons outside)).symm
      simp [dropTrail, first, second]

theorem body_append_piece {front piece : Text} (separated : '/' ∉ piece) (solid : piece ≠ [])
    (notHere : piece ≠ ['.']) : (Path.mk (front ++ piece)).body = front ++ piece := by
  rw [body, List.reverse_append, dropTrail_append_piece separated solid notHere,
    ← List.reverse_append, List.reverse_reverse]

theorem components_ne_nil {text : Text} (solid : text ≠ []) :
    (Path.mk text).components ≠ [] := by
  obtain ⟨c, rest, rfl⟩ := List.exists_cons_of_ne_nil solid
  obtain ⟨piece, pieces, started⟩ := List.exists_cons_of_ne_nil (List.splitOn_ne_nil '/' rest)
  by_cases slash : c = '/'
  · simp [components, List.splitOn_cons_eq_if_modifyHead, slash, isAbsolute]
  · have started' : (c :: rest).splitOn '/' = (c :: piece) :: pieces := by
      simp [List.splitOn_cons_eq_if_modifyHead, slash, started]
    have step : ∃ first, component? (c :: piece) = some first := by
      unfold component?
      simp only [reduceCtorEq, ↓reduceIte]
      split
      · exact ⟨_, rfl⟩
      · split <;> exact ⟨_, rfl⟩
    obtain ⟨first, isFirst⟩ := step
    simp [components, started', isAbsolute, slash, isFirst]

theorem components_body {path : Path} (solid : path.body ≠ []) :
    (Path.mk path.body).components = path.components := by
  have backwards : ∀ text : Text, dropTrail text ≠ [] →
      (Path.mk (dropTrail text).reverse).components = (Path.mk text.reverse).components := by
    intro text kept
    fun_induction dropTrail text with
    | case1 rest ih =>
        have started : rest.reverse ≠ [] := by
          rw [List.reverse_ne_nil_iff]
          rintro rfl
          exact kept rfl
        rw [ih kept, List.reverse_cons, components_append_cons _ _ List.not_mem_nil, if_neg started]
        exact (List.append_nil _).symm
    | case2 rest ih =>
        have started : rest.reverse ≠ [] := by
          rw [List.reverse_ne_nil_iff]
          rintro rfl
          exact kept rfl
        have separated : '/' ∉ ['.'] := by decide
        rw [ih kept, List.reverse_cons, List.reverse_cons, List.append_assoc,
          List.singleton_append, components_append_cons _ _ separated, if_neg started]
        exact (List.append_nil _).symm
    | case3 text noSlash noDot => rfl
  have whole := backwards path.text.reverse (by simpa [body] using solid)
  rwa [List.reverse_reverse] at whole

end Path

end CompilerFront
