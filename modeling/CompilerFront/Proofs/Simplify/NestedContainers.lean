import CompilerFront.Proofs.Simplify.PrintedTypes
import Mathlib.Algebra.GroupWithZero.Nat
import Mathlib.Algebra.Order.BigOperators.Group.List
import Mathlib.Algebra.Order.Group.Nat

set_option autoImplicit false

/-!
Dropping the allocators of containers in lists of types. The element type of a container is read
where its name stands first, so each container loses the allocators of one element type only.
-/
namespace CompilerFront.Simplify

/-- Names of containers and the pieces of a type begin nowhere alike, but for the container's own
name. -/
theorem unrelated_opening :
    ∀ container ∈ containers, ∀ kind ∈ [Sequence.vector, Sequence.list],
      kind.container ≠ container → ∀ tail ∈ kind.opening.tails, tail ≠ [] →
        ¬ (container.name <+: tail ∨ tail <+: container.name) := by
  decide +kernel

theorem unrelated_tail_opening :
    ∀ kind ∈ [Sequence.vector, Sequence.list], ∀ tail ∈ kind.opening.tail.tails, tail ≠ [] →
      ¬ (kind.container.name <+: tail ∨ tail <+: kind.container.name) := by
  decide +kernel

theorem unrelated_allocatorOpening :
    ∀ container ∈ containers, ∀ tail ∈ allocatorOpening.tails, tail ≠ [] →
      ¬ (container.name <+: tail ∨ tail <+: container.name) := by
  decide +kernel

theorem Sequence.mem_all (kind : Sequence) : kind ∈ [Sequence.vector, Sequence.list] := by
  cases kind <;> decide

section

variable {container : Container} {rest : Text}

theorem Sequence.apart_opening (known : container ∈ containers) {kind : Sequence}
    (different : kind.container ≠ container) (rest : Text) :
    Text.Apart container.name kind.opening rest :=
  Text.apart_of_unrelated (unrelated_opening container known kind kind.mem_all different) rest

theorem apart_allocatorOpening (known : container ∈ containers) (rest : Text) :
    Text.Apart container.name allocatorOpening rest :=
  Text.apart_of_unrelated (unrelated_allocatorOpening container known) rest

theorem apart_commaSeparator_name (known : container ∈ containers) (blanks : Nat) (rest : Text) :
    Text.Apart container.name (commaSeparator blanks) rest := by
  refine apart_of_signs known (fun c inside => ?_) rest
  rcases mem_commaSeparator inside with rfl | rfl
  · decide
  · decide

end

theorem length_commaList (blanks : Nat) (texts : List Text) :
    (commaList blanks texts).length =
      (texts.map List.length).sum + (texts.length - 1) * (blanks + 1) := by
  induction texts with
  | nil => simp
  | cons first others ih =>
      cases others with
      | nil => simp
      | cons second others =>
          have gap : (commaSeparator blanks).length = blanks + 1 := by simp [commaSeparator]
          have more : (first :: second :: others).length - 1 =
              ((second :: others).length - 1) + 1 := by simp
          have total : ((first :: second :: others).map List.length).sum =
              first.length + ((second :: others).map List.length).sum := List.sum_cons
          rw [commaList_cons_cons, List.length_append, List.length_append, gap, ih, more,
            Nat.succ_mul, total]
          omega

namespace SequenceType

variable {container : Container} {short : Sequence → SequenceType → Bool}

/-- The search in a type finds its first instance of the container; without any, it goes on
behind it. -/
theorem element?_written_append (known : container ∈ containers)
    (full : ∀ kind element, kind.container = container → short kind element = false)
    {type : SequenceType} (shallow : type.depth < 2 ^ 30) {rest : Text} (ended : IsEnd rest) :
    container.element? (type.written short ++ rest) =
      ((type.elements container).head?.map (written short)).or (container.element? rest) := by
  induction type generalizing rest with
  | named name => rw [written, Container.element?_append_of_apart (name.apart known ended)]; rfl
  | sequence kind element ih =>
      have inside : element.depth < 2 ^ 30 := Nat.lt_of_succ_lt shallow
      by_cases same : kind.container = container
      · have solid := (isIdentifier_containerName container known).ne_nil
        have opening : kind.opening = container.name ++ "<" := same ▸ rfl
        rw [written_append_of_full (full kind element same), opening, elements, if_pos same,
          List.append_assoc]
        exact Container.element?_of_isPassed solid (isPassed_written short inside)
          (element.trim_written short) _
      · rw [elements, if_neg same]
        have opening (text : Text) : Text.Apart container.name kind.opening text :=
          kind.apart_opening known same text
        have closing {signs : Text} (closes : ∀ c ∈ signs, Text.isIdentifierChar c = false) :
            Text.Apart container.name signs rest := apart_of_signs known closes rest
        cases brief : short kind element with
        | true =>
            rw [written_append_of_short brief, Container.element?_append_of_apart (opening _),
              ih inside (isEnd_append rfl (by decide) rest),
              Container.element?_append_of_apart (closing (by decide))]
        | false =>
            rw [written_append_of_full brief, Container.element?_append_of_apart (opening _),
              ih inside (isEnd_append rfl (by decide) _),
              Container.element?_append_of_apart (apart_allocatorOpening known _),
              ih inside (isEnd_append rfl (by decide) rest),
              Container.element?_append_of_apart (closing (by decide)),
              ← Option.or_assoc, Option.or_self]

theorem element?_commaList (known : container ∈ containers)
    (full : ∀ kind element, kind.container = container → short kind element = false)
    (blanks : Nat) {types : List SequenceType} (shallow : ∀ type ∈ types, type.depth < 2 ^ 30) :
    container.element? (commaList blanks (types.map (written short))) =
      (types.flatMap (elements container)).head?.map (written short) := by
  have solid := (isIdentifier_containerName container known).ne_nil
  have nothing : container.element? [] = none :=
    Container.element?_of_absent fun inside => solid (List.infix_nil.mp inside)
  induction types with
  | nil => exact nothing
  | cons type others ih =>
      obtain ⟨first, later⟩ := List.forall_mem_cons.mp shallow
      rw [List.flatMap_cons, List.head?_append, Option.map_or, ← ih later]
      cases others with
      | nil =>
          have ended : IsEnd [] := by simp [IsEnd]
          have whole := element?_written_append known full first ended
          rw [List.append_nil] at whole
          rw [List.map_singleton, commaList_singleton]
          exact whole
      | cons second others =>
          rw [List.map_cons, List.map_cons, commaList_cons_cons,
            element?_written_append known full first (isEnd_append rfl (by decide) _),
            Container.element?_append_of_apart (apart_commaSeparator_name known _ _)]

/-- The instances of one container for one element type are short as well. -/
def shorten (container : Container) (target : SequenceType) (short : Sequence → SequenceType → Bool)
    (kind : Sequence) (element : SequenceType) : Bool :=
  decide (kind.container = container ∧ element = target) || short kind element

theorem depth_lt_of_mem_elements {type element : SequenceType}
    (inside : element ∈ type.elements container) : element.depth < type.depth := by
  induction type with
  | named name => cases inside
  | sequence kind inner ih =>
      have within : element = inner ∨ element ∈ inner.elements container := by
        rw [elements] at inside
        split at inside
        · exact List.mem_cons.mp inside
        · exact .inr inside
      rw [depth]
      rcases within with rfl | deeper
      · exact Nat.lt_succ_self element.depth
      · exact Nat.lt_succ_of_lt (ih deeper)

theorem written_congr {other : Sequence → SequenceType → Bool} {type : SequenceType}
    (agree : ∀ kind, ∀ element ∈ type.elements kind.container,
      short kind element = other kind element) : type.written short = type.written other := by
  induction type with
  | named name => rfl
  | sequence kind element ih =>
      have here : short kind element = other kind element :=
        agree kind element (by simp [elements])
      have inner : element.written short = element.written other := by
        refine ih fun kind' element' inside => agree kind' element' ?_
        rw [elements]
        split
        · exact List.mem_cons_of_mem element inside
        · exact inside
      rw [written, written, here, inner]

theorem written_shorten_self (container : Container) (target : SequenceType)
    (short : Sequence → SequenceType → Bool) :
    target.written (shorten container target short) = target.written short := by
  refine written_congr fun kind element inside => ?_
  have smaller := depth_lt_of_mem_elements inside
  have other : element ≠ target := fun same => absurd (same ▸ smaller) (Nat.lt_irrefl _)
  simp [shorten, other]

/-- Where an instance for another element type stands, the one that is looked for does not. -/
theorem apart_opening_of_ne {kind : Sequence} {element target : SequenceType}
    (shallow : element.depth < 2 ^ 30) (shallow' : target.depth < 2 ^ 30)
    (full : short kind element = false) (different : element ≠ target) (rest : Text) :
    Text.Apart (kind.container.fullName (target.written short)) kind.opening
      (element.written short ++
        (allocatorOpening ++ (element.written short ++ (">>" ++ rest)))) := by
  have behind (text : Text) :
      Text.Apart (kind.container.fullName (target.written short)) kind.opening.tail text :=
    (Text.apart_of_unrelated (unrelated_tail_opening kind kind.mem_all) text).of_start
      (kind.container.name_prefix_fullName _)
  obtain ⟨c, tail, shape⟩ : ∃ c tail, kind.opening = c :: tail := by
    cases kind <;> exact ⟨_, _, rfl⟩
  have tails := behind (element.written short ++
    (allocatorOpening ++ (element.written short ++ (">>" ++ rest))))
  rw [shape] at tails ⊢
  refine Text.apart_cons.mpr ⟨?_, tails⟩
  rintro ⟨more, same⟩
  rw [← List.cons_append, ← shape, Sequence.fullName_append] at same
  have read := congrArg (argumentFrom? 0) (List.append_cancel_left same)
  rw [argumentFrom?_written_of_full short shallow',
    argumentFrom?_written_of_full short shallow] at read
  exact different (written_injective short shallow' shallow (Option.some.inj read)).symm

theorem apart_opening_of_missed (known : container ∈ containers) {target element : SequenceType}
    (target_shallow : target.depth < 2 ^ 30) (shallow : element.depth < 2 ^ 30) {kind : Sequence}
    (full : short kind element = false) (missed : ¬ (kind.container = container ∧ element = target))
    (rest : Text) :
    Text.Apart (container.fullName (target.written short)) kind.opening
      (element.written short ++
        (allocatorOpening ++ (element.written short ++ (">>" ++ rest)))) := by
  by_cases same : kind.container = container
  · subst same
    exact apart_opening_of_ne shallow target_shallow full (fun equal => missed ⟨rfl, equal⟩) rest
  · have start := container.name_prefix_fullName (target.written short)
    exact (kind.apart_opening known same _).of_start start

theorem replaceAll_written_append (known : container ∈ containers)
    (full : ∀ kind element, kind.container = container → short kind element = false)
    {target type : SequenceType} (target_shallow : target.depth < 2 ^ 30)
    (shallow : type.depth < 2 ^ 30) {rest : Text} (ended : IsEnd rest) :
    Text.replaceAll (container.fullName (target.written short))
        (container.shortName (target.written short)) (type.written short ++ rest) =
      type.written (shorten container target short) ++
        Text.replaceAll (container.fullName (target.written short))
          (container.shortName (target.written short)) rest := by
  have start := container.name_prefix_fullName (target.written short)
  induction type generalizing rest with
  | named name =>
      exact Text.replaceAll_append_of_apart ((name.apart known ended).of_start start) _
  | sequence kind element ih =>
      have inside : element.depth < 2 ^ 30 := Nat.lt_of_succ_lt shallow
      have between (text : Text) :
          Text.Apart (container.fullName (target.written short)) allocatorOpening text :=
        (apart_allocatorOpening known text).of_start start
      have closing {signs : Text} (closes : ∀ c ∈ signs, Text.isIdentifierChar c = false) :
          Text.Apart (container.fullName (target.written short)) signs rest :=
        (apart_of_signs known closes rest).of_start start
      cases brief : short kind element with
      | true =>
          have other : kind.container ≠ container := fun same => by
            rw [full kind element same] at brief
            cases brief
          have still : shorten container target short kind element = true := by
            simp [shorten, brief]
          rw [written_append_of_short brief, written_append_of_short still,
            Text.replaceAll_append_of_apart ((kind.apart_opening known other _).of_start start),
            ih inside (isEnd_append rfl (by decide) rest),
            Text.replaceAll_append_of_apart (closing (by decide))]
      | false =>
          -- The instance looked for is replaced as a whole. Any other one is kept up to its element
          -- type, in which the search goes on.
          by_cases hit : kind.container = container ∧ element = target
          · obtain ⟨rfl, rfl⟩ := hit
            have solid : kind.container.fullName (element.written short) ≠ [] := fun empty =>
              (kind.isIdentifier_name).ne_nil (List.prefix_nil.mp (empty ▸ start))
            have now : shorten kind.container element short kind element = true := by
              simp [shorten]
            rw [written, if_neg (Bool.eq_false_iff.mp brief), Text.replaceAll_self_append solid,
              written, if_pos now, written_shorten_self]
          · have still : shorten container target short kind element = false := by
              simp [shorten, brief, hit]
            have opening := apart_opening_of_missed known target_shallow inside brief hit rest
            rw [written_append_of_full brief, written_append_of_full still,
              Text.replaceAll_append_of_apart opening, ih inside (isEnd_append rfl (by decide) _),
              Text.replaceAll_append_of_apart (between _),
              ih inside (isEnd_append rfl (by decide) rest),
              Text.replaceAll_append_of_apart (closing (by decide))]

theorem replaceAll_commaList (known : container ∈ containers)
    (full : ∀ kind element, kind.container = container → short kind element = false)
    {target : SequenceType} (target_shallow : target.depth < 2 ^ 30) (blanks : Nat)
    {types : List SequenceType} (shallow : ∀ type ∈ types, type.depth < 2 ^ 30) :
    Text.replaceAll (container.fullName (target.written short))
        (container.shortName (target.written short))
        (commaList blanks (types.map (written short))) =
      commaList blanks (types.map (written (shorten container target short))) := by
  have start := container.name_prefix_fullName (target.written short)
  refine rewrite_commaList (Text.replaceAll_nil _ _) (fun type listed => ?_)
    fun type listed rest => ?_
  · have ended : IsEnd [] := by simp [IsEnd]
    have whole := replaceAll_written_append known full target_shallow (shallow type listed) ended
    rwa [Text.replaceAll_nil, List.append_nil, List.append_nil] at whole
  · have between := (apart_commaSeparator_name known blanks rest).of_start start
    rw [replaceAll_written_append known full target_shallow (shallow type listed)
        (isEnd_append rfl (by decide) _),
      Text.replaceAll_append_of_apart between]

theorem mem_written (short : Sequence → SequenceType → Bool) (type : SequenceType) :
    ∀ c ∈ type.written short, Text.isIdentifierChar c = true ∨ c ∈ ("<>, " : Text) := by
  induction type with
  | named name => exact fun c inside => .inl (name.identifier.isIdentifierChar c inside)
  | sequence kind element ih =>
      have opening :
          ∀ c ∈ kind.opening, Text.isIdentifierChar c = true ∨ c ∈ ("<>, " : Text) := by
        cases kind <;> decide
      have allocator :
          ∀ c ∈ allocatorOpening, Text.isIdentifierChar c = true ∨ c ∈ ("<>, " : Text) := by
        decide
      have closing :
          ∀ c ∈ (">>" : Text), Text.isIdentifierChar c = true ∨ c ∈ ("<>, " : Text) := by
        decide
      cases brief : short kind element with
      | true =>
          rw [written_of_short brief]
          exact List.forall_mem_append.mpr ⟨opening, List.forall_mem_append.mpr
            ⟨ih, by decide⟩⟩
      | false =>
          rw [written_of_full brief]
          exact List.forall_mem_append.mpr ⟨opening, List.forall_mem_append.mpr
            ⟨ih, List.forall_mem_append.mpr ⟨allocator, List.forall_mem_append.mpr
              ⟨ih, closing⟩⟩⟩⟩

/-- What is short once some containers have been treated: the instances for the element type that
stands first. -/
def isDropped (types : List SequenceType) (done : List Container) (kind : Sequence)
    (element : SequenceType) : Bool :=
  decide (kind.container ∈ done ∧
    (types.flatMap (elements kind.container)).head? = some element)

/-- Treating one more container drops the allocators of its first element type. -/
theorem dropDefaults_commaList (known : container ∈ containers) {done : List Container}
    (untreated : container ∉ done) (blanks : Nat) {types : List SequenceType}
    (shallow : ∀ type ∈ types, type.depth < 2 ^ 30) :
    container.dropDefaults (commaList blanks (types.map (written (isDropped types done)))) =
      commaList blanks (types.map (written (isDropped types (done ++ [container])))) := by
  have full (kind : Sequence) (element : SequenceType) (same : kind.container = container) :
      isDropped types done kind element = false := by
    simp [isDropped, same, untreated]
  have found := element?_commaList known full blanks shallow
  cases first : (types.flatMap (elements container)).head? with
  | none =>
      have unchanged : isDropped types (done ++ [container]) = isDropped types done := by
        funext kind element
        by_cases same : kind.container = container
        · simp [isDropped, same, first]
        · simp [isDropped, same]
      rw [first] at found
      rw [unchanged, Container.dropDefaults_of_element?_eq_none found]
  | some target =>
      have shortened :
          isDropped types (done ++ [container]) =
            shorten container target (isDropped types done) := by
        funext kind element
        by_cases same : kind.container = container
        · simp [isDropped, shorten, same, first, untreated, eq_comm]
        · simp [isDropped, shorten, same]
      obtain ⟨type, listed, inside⟩ := List.mem_flatMap.mp (List.mem_of_head? first)
      have below : target.depth < 2 ^ 30 :=
        (depth_lt_of_mem_elements inside).trans (shallow type listed)
      have replaced := replaceAll_commaList known full below blanks shallow
      rw [first] at found
      have plain : ':' ∉ commaList blanks
          (types.map (written (shorten container target (isDropped types done)))) := by
        refine not_mem_commaList (by decide) (by decide) fun text inside => ?_
        obtain ⟨type, -, rfl⟩ := List.mem_map.mp inside
        exact fun colon => absurd (type.mem_written _ ':' colon) (by decide)
      rw [Container.dropDefaults_of_element?_eq_some found (replaced ▸ plain), replaced, shortened]

theorem foldl_dropDefaults (blanks : Nat) {types : List SequenceType}
    (shallow : ∀ type ∈ types, type.depth < 2 ^ 30) {order done : List Container}
    (known : order ⊆ containers) (distinct : (done ++ order).Nodup) :
    order.foldl (fun code container => container.dropDefaults code)
        (commaList blanks (types.map (written (isDropped types done)))) =
      commaList blanks (types.map (written (isDropped types (done ++ order)))) := by
  induction order generalizing done with
  | nil => rw [List.foldl_nil, List.append_nil]
  | cons container order ih =>
      obtain ⟨isKnown, others⟩ := List.cons_subset.mp known
      have untreated : container ∉ done := fun inside =>
        (List.nodup_append.mp distinct).2.2 container inside container List.mem_cons_self rfl
      have rest : done ++ container :: order = done ++ [container] ++ order := by simp
      rw [rest] at distinct ⊢
      rw [List.foldl_cons, dropDefaults_commaList isKnown untreated blanks shallow,
        ih others distinct]

/-- Whether an element type is the one that stands first among those of its container. -/
def isFirst (types : List SequenceType) (kind : Sequence) (element : SequenceType) : Bool :=
  decide ((types.flatMap (elements kind.container)).head? = some element)

/-- Of each container the allocators of the first element type are dropped. -/
theorem dropDefaultArguments_commaList (blanks : Nat) {types : List SequenceType}
    (shallow : ∀ type ∈ types, type.depth < 2 ^ 30) :
    dropDefaultArguments (commaList blanks (types.map (written fun _ _ => false))) =
      commaList blanks (types.map (written (isFirst types))) := by
  have start : isDropped types [] = fun _ _ => false := by
    funext kind element
    simp [isDropped]
  have stop : isDropped types containers = isFirst types := by
    funext kind element
    simp [isDropped, isFirst, kind.container_mem]
  have distinct : ([] ++ containers).Nodup := by decide
  have folded := foldl_dropDefaults blanks shallow (List.Subset.refl containers) distinct
  rw [start, List.nil_append, stop] at folded
  exact folded

/-- A type without any default argument. -/
def bare (type : SequenceType) : Text := type.written fun _ _ => true

theorem length_written_of_short {kind : Sequence} {element : SequenceType}
    (brief : short kind element = true) :
    ((sequence kind element).written short).length =
      kind.opening.length + (element.written short).length + 1 := by
  rw [written_of_short brief, List.length_append, List.length_append, ← Nat.add_assoc]
  rfl

theorem length_written_of_full {kind : Sequence} {element : SequenceType}
    (full : short kind element = false) :
    kind.opening.length + (element.written short).length + 1 <
      ((sequence kind element).written short).length := by
  have brackets : (">>" : Text).length = 2 := rfl
  rw [written_of_full full]
  simp only [List.length_append, brackets]
  omega

theorem length_bare_le (short : Sequence → SequenceType → Bool) (type : SequenceType) :
    type.bare.length ≤ (type.written short).length := by
  induction type with
  | named name => exact Nat.le_refl _
  | sequence kind element ih =>
      have less : (sequence kind element).bare.length = _ := length_written_of_short rfl
      rw [bare] at ih
      cases brief : short kind element with
      | true =>
          have more := length_written_of_short brief
          omega
      | false =>
          have more := length_written_of_full brief
          omega

/-- A type that is no longer than without default arguments has none. -/
theorem short_of_length_le {type : SequenceType}
    (fits : (type.written short).length ≤ type.bare.length) :
    ∀ kind, ∀ element ∈ type.elements kind.container, short kind element = true := by
  induction type with
  | named name => exact fun kind element inside => nomatch inside
  | sequence kind inner ih =>
      have less : (sequence kind inner).bare.length = _ := length_written_of_short rfl
      have least := inner.length_bare_le short
      rw [bare] at ih least
      cases brief : short kind inner with
      | false =>
          have more := length_written_of_full brief
          omega
      | true =>
          have more := length_written_of_short brief
          have deeper := ih (by omega)
          intro kind' element inside
          rw [elements] at inside
          split at inside
          · rename_i same
            rcases List.mem_cons.mp inside with rfl | within
            · rw [← Sequence.container_injective same]
              exact brief
            · exact deeper kind' element within
          · exact deeper kind' element inside

theorem short_of_commaList_eq {blanks : Nat} {types : List SequenceType}
    (same : commaList blanks (types.map (written short)) = commaList blanks (types.map bare)) :
    ∀ kind, ∀ element ∈ types.flatMap (elements kind.container), short kind element = true := by
  have lengths := congrArg List.length same
  rw [length_commaList, length_commaList, List.length_map, List.length_map, Nat.add_left_inj,
    List.map_map, List.map_map] at lengths
  intro kind element inside
  obtain ⟨type, listed, within⟩ := List.mem_flatMap.mp inside
  refine short_of_length_le (Nat.not_lt.mp fun longer => ?_) kind element within
  have more := List.sum_lt_sum (List.length ∘ bare) (List.length ∘ written short)
    (fun type _ => type.length_bare_le short) ⟨type, listed, longer⟩
  omega

end SequenceType

/-- No text that fits into memory is nested so deep that its brackets cannot be counted. -/
theorem depth_lt_of_length_lt {blanks : Nat} {types : List SequenceType}
    (stored : (commaList blanks (types.map SequenceType.printed)).length < 2 ^ 63) :
    ∀ type ∈ types, type.depth < 2 ^ 30 := by
  intro type listed
  have part : type.printed.length ∈ (types.map SequenceType.printed).map List.length :=
    List.mem_map_of_mem (List.mem_map_of_mem listed)
  have least := List.single_le_sum (fun _ _ => Nat.zero_le _) _ part
  have doubled := type.two_pow_depth_le
  rw [length_commaList] at stored
  have below : type.depth < 63 := (Nat.pow_lt_pow_iff_right Nat.one_lt_two).mp (by omega)
  exact below.trans (by decide)

/-- Simplifying a list of types that fits into memory drops the allocators of the first element type
of each container, wherever they stand. So all of them are dropped exactly if each container has one
element type only. -/
theorem simplifyFragment_commaList_printed (blanks : Nat) (types : List SequenceType)
    (stored : (commaList blanks (types.map SequenceType.printed)).length < 2 ^ 63) :
    simplifyFragment 1 (commaList blanks (types.map SequenceType.printed)) =
        commaList blanks (types.map (SequenceType.written (SequenceType.isFirst types))) ∧
      (simplifyFragment 1 (commaList blanks (types.map SequenceType.printed)) =
          commaList blanks (types.map SequenceType.bare) ↔
        ∀ kind : Sequence,
          ∀ first ∈ types.flatMap (SequenceType.elements kind.container),
            ∀ second ∈ types.flatMap (SequenceType.elements kind.container), first = second) := by
  have simplified : simplifyFragment 1 (commaList blanks (types.map SequenceType.printed)) =
      commaList blanks (types.map (SequenceType.written (SequenceType.isFirst types))) := by
    rw [simplifyFragment_printed,
      SequenceType.dropDefaultArguments_commaList blanks (depth_lt_of_length_lt stored)]
  refine ⟨simplified, ?_⟩
  rw [simplified]
  constructor
  · intro same kind first inside second within
    have leads := SequenceType.short_of_commaList_eq same kind
    have one := of_decide_eq_true (leads first inside)
    have other := of_decide_eq_true (leads second within)
    exact Option.some.inj (one.symm.trans other)
  · intro single
    refine congrArg (commaList blanks) (List.map_congr_left fun type listed => ?_)
    rw [SequenceType.bare]
    refine SequenceType.written_congr fun kind element inside => ?_
    have within : element ∈ types.flatMap (SequenceType.elements kind.container) :=
      List.mem_flatMap.mpr ⟨type, listed, inside⟩
    obtain ⟨first, others, shape⟩ := List.exists_cons_of_ne_nil (List.ne_nil_of_mem within)
    have equal : first = element := single kind first (by simp [shape]) element within
    simp [SequenceType.isFirst, shape, equal]

def intName : PlainName := ⟨"int", by decide, by decide⟩

def charName : PlainName := ⟨"char", by decide, by decide⟩

def intVectors : List SequenceType :=
  [.sequence .vector (.named intName), .sequence .list (.sequence .vector (.named intName))]

/-- Different containers may be nested in each other. -/
theorem simplifyFragment_intVectors :
    (commaList 1 (intVectors.map SequenceType.printed)).length < 2 ^ 63 ∧
      simplifyFragment 1 (commaList 1 (intVectors.map SequenceType.printed)) =
        "vector<int>, list<vector<int>>" ∧
      simplifyFragment 1 (commaList 1 (intVectors.map SequenceType.printed)) =
        commaList 1 (intVectors.map SequenceType.bare) := by
  have stored : (commaList 1 (intVectors.map SequenceType.printed)).length < 2 ^ 63 := by
    decide +kernel
  obtain ⟨simplified, dropped⟩ := simplifyFragment_commaList_printed 1 intVectors stored
  refine ⟨stored, simplified.trans (by decide +kernel), dropped.mpr fun kind => ?_⟩
  cases kind <;> decide +kernel

def twoVectors : List SequenceType :=
  [.sequence .vector (.named intName), .sequence .vector (.named charName)]

/-- The second of two vectors keeps its allocator. -/
theorem simplifyFragment_twoVectors :
    commaList 1 (twoVectors.map SequenceType.printed) =
        "std::vector<int, std::allocator<int> >, std::vector<char, std::allocator<char> >" ∧
      simplifyFragment 1 (commaList 1 (twoVectors.map SequenceType.printed)) =
        "vector<int>, vector<char, allocator<char>>" ∧
      simplifyFragment 1 (commaList 1 (twoVectors.map SequenceType.printed)) ≠
        commaList 1 (twoVectors.map SequenceType.bare) := by
  decide +kernel

/-- Likewise the inner one of two nested vectors. -/
example : simplifyFragment 1
      (SequenceType.sequence .vector (.sequence .vector (.named intName))).printed =
    "vector<vector<int, allocator<int>>>" := by
  decide +kernel

end CompilerFront.Simplify
