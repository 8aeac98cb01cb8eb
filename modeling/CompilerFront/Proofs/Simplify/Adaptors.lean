import CompilerFront.Proofs.Simplify.PrintedAdaptors

set_option autoImplicit false

/-!
Dropping the default arguments of container adaptors within a line of code. The default argument of
an adaptor is a container with a default argument of its own, so what is dropped hangs on the order
in which the two are treated.
-/
namespace CompilerFront.Simplify

def dequeContainer : Container := ⟨"deque", ["allocator"]⟩

theorem dequeContainer_mem : dequeContainer ∈ containers := by decide

theorem dequeContainer_ne_nil : dequeContainer.name ≠ [] := by decide

/-- The pieces between the mentions of the element of an adaptor. -/
def adaptorPieces : List Text := [", deque<", ", allocator<", ">>>", ">>", ">"]

theorem isClear_adaptorPieces :
    ∀ container ∈ containers, container ≠ dequeContainer →
      ∀ piece ∈ adaptorPieces, IsClear container.name piece := by
  decide +kernel

theorem unrelated_adaptorOpening :
    ∀ container ∈ containers, ∀ adaptor ∈ [Adaptor.stack, Adaptor.queue],
      container ≠ adaptor.container → ∀ tail ∈ (adaptor.container.name ++ "<").tails, tail ≠ [] →
        ¬ (container.name <+: tail ∨ tail <+: container.name) := by
  decide +kernel

namespace Adaptor

theorem mem_all (adaptor : Adaptor) : adaptor ∈ [stack, queue] := by cases adaptor <;> decide

section

variable (adaptor : Adaptor) (front back : PlainText) (name : PlainName)

theorem fullName_eq_woven :
    adaptor.container.fullName name.text =
      adaptor.container.name ++ "<" ++ woven name.text [", deque<", ">>"] := by
  have defaults : adaptor.container.defaults = ["deque".toList] := by cases adaptor <;> rfl
  have deque : (", deque<" : Text) = ", " ++ "deque" ++ "<" := rfl
  have closing : (">>" : Text) = ">" ++ ">" := rfl
  rw [Container.fullName, defaults, List.flatMap_singleton, Container.defaultArgument, woven, deque,
    closing]
  simp only [List.flatMap_cons, List.flatMap_nil, List.append_assoc, List.append_nil]

theorem shortName_eq_woven :
    adaptor.container.shortName name.text =
      adaptor.container.name ++ "<" ++ woven name.text [">"] := by
  rw [Container.shortName, woven]
  simp only [List.flatMap_cons, List.flatMap_nil, List.append_assoc, List.append_nil]

/-- What stands in front of the container of which an adaptor is made. -/
def opening (element : Text) : Text := adaptor.container.name ++ "<" ++ element ++ ", "

theorem spelled_eq_opening (element : Text) :
    adaptor.spelled [] [] element =
      adaptor.opening element ++ (dequeContainer.fullName element ++ ">") := by
  have defaults : dequeContainer.defaults = ["allocator".toList] := rfl
  have deque : ("deque<" : Text) = dequeContainer.name ++ "<" := rfl
  have allocator : ("allocator<" : Text) = "allocator" ++ "<" := rfl
  rw [spelled, opening, Container.fullName, defaults, List.flatMap_singleton,
    Container.defaultArgument, deque, allocator]
  simp only [List.append_assoc, List.nil_append]

theorem fullName_eq_opening (element : Text) :
    adaptor.container.fullName element =
      adaptor.opening element ++ (dequeContainer.shortName element ++ ">") := by
  have defaults : adaptor.container.defaults = [dequeContainer.name] := by cases adaptor <;> rfl
  rw [Container.fullName, defaults, List.flatMap_singleton, Container.defaultArgument, opening,
    Container.shortName]
  simp only [List.append_assoc]

/-- A container with another name, which does not go on with what the adaptor's name begins with. -/
def IsStranger (container : Container) : Prop :=
  container ∈ containers ∧ container ≠ dequeContainer ∧ container ≠ adaptor.container ∧
    ∀ c ∈ adaptor.container.name.head?, c ∉ container.name.tail

instance (container : Container) : Decidable (adaptor.IsStranger container) :=
  inferInstanceAs (Decidable (_ ∧ _))

/-- A container that goes on unlike the adaptor in front of which it may begin is not there. -/
theorem apart_front {container : Container} (known : container ∈ containers)
    (ended : ∀ c ∈ adaptor.container.name.head?, c ∉ container.name.tail) (rest : Text) :
    Text.Apart container.name front.text (adaptor.container.name ++ rest) := by
  refine Text.apart_of_ended (front.unnamed known) ?_
  rw [List.head?_append_of_ne_nil _ adaptor.name_ne_nil]
  exact ended

theorem dropDefaults_woven {container : Container} (known : container ∈ containers)
    (noDeque : container ≠ dequeContainer) (other : container ≠ adaptor.container)
    (before : ∀ rest, Text.Apart container.name front.text (adaptor.container.name ++ rest))
    {pieces : List Text} (usual : pieces ⊆ adaptorPieces) :
    container.dropDefaults
        (front.text ++ (adaptor.container.name ++ "<" ++ woven name.text pieces ++ back.text)) =
      front.text ++ (adaptor.container.name ++ "<" ++ woven name.text pieces ++ back.text) := by
  have element : ¬ container.name <:+: name.text :=
    name.unreserved _ (List.mem_append_left _ (List.mem_map_of_mem known))
  have opening := Text.apart_of_unrelated
    (unrelated_adaptorOpening container known adaptor adaptor.mem_all other)
  have inner := apart_woven element (fun piece inside =>
    isClear_adaptorPieces container known noDeque piece (usual inside)) back.text
  apply Container.dropDefaults_of_element?_eq_none
  rw [List.append_assoc, List.append_assoc, ← List.append_assoc "<".toList,
    Container.element?_append_of_apart (before _), List.append_assoc,
    ← List.append_assoc adaptor.container.name, Container.element?_append_of_apart (opening _),
    Container.element?_append_of_apart inner]
  exact Container.element?_of_absent (back.unnamed known)

theorem colon_not_mem_woven {pieces : List Text} (usual : pieces ⊆ adaptorPieces) :
    ':' ∉ front.text ++ (adaptor.container.name ++ "<" ++ woven name.text pieces ++ back.text) := by
  have signs : ∀ piece ∈ adaptorPieces, ':' ∉ piece := by decide
  have element : ':' ∉ name.text := name.identifier.not_mem (by decide)
  have inner : ':' ∉ woven name.text pieces := by
    intro inside
    obtain ⟨piece, listed, within⟩ := List.mem_flatMap.mp inside
    exact List.not_mem_append element (signs piece (usual listed)) within
  have opening : ':' ∉ adaptor.container.name ++ "<" := by cases adaptor <;> decide
  exact List.not_mem_append (front.not_mem (by decide))
    (List.not_mem_append (List.not_mem_append opening inner) (back.not_mem (by decide)))

theorem name_apart_front (rest : Text) :
    Text.Apart adaptor.container.name front.text (adaptor.container.name ++ rest) :=
  adaptor.apart_front front adaptor.container_mem (by cases adaptor <;> decide) rest

/-- No deque begins in front of the one of which an adaptor is made. -/
theorem deque_apart_opening (rest : Text) :
    Text.Apart dequeContainer.name (adaptor.opening name.text) rest := by
  have start := Text.apart_of_unrelated
    (unrelated_adaptorOpening dequeContainer dequeContainer_mem adaptor adaptor.mem_all
      (by cases adaptor <;> decide))
  have ended : IsEnd ((", " : Text) ++ rest) := isEnd_append rfl (by decide) rest
  have comma : Text.Apart dequeContainer.name ", " rest :=
    apart_of_signs dequeContainer_mem (by decide) rest
  rw [opening, List.append_assoc]
  exact (start _).append ((name.apart dequeContainer_mem ended).append comma)

theorem dropDefaults_stranger {container : Container} (stranger : adaptor.IsStranger container)
    {pieces : List Text} (usual : pieces ⊆ adaptorPieces) :
    container.dropDefaults
        (front.text ++ (adaptor.container.name ++ "<" ++ woven name.text pieces ++ back.text)) =
      front.text ++ (adaptor.container.name ++ "<" ++ woven name.text pieces ++ back.text) :=
  adaptor.dropDefaults_woven front back name stranger.1 stranger.2.1 stranger.2.2.1
    (adaptor.apart_front front stranger.1 stranger.2.2.2) usual

/-- The allocator of the deque in an adaptor is dropped if the front does not end with what could be
the beginning of its name. -/
theorem dropDefaults_deque
    (apart : Text.Apart dequeContainer.name front.text
      (adaptor.spelled [] [] name.text ++ back.text)) :
    dequeContainer.dropDefaults (front.text ++ (adaptor.spelled [] [] name.text ++ back.text)) =
      front.text ++ (adaptor.container.fullName name.text ++ back.text) := by
  have shape (inner : Text) :
      front.text ++ (adaptor.opening name.text ++ (inner ++ ">") ++ back.text) =
        (front.text ++ adaptor.opening name.text) ++ (inner ++ (">" ++ back.text)) := by
    simp only [List.append_assoc]
  have bracket : Text.Apart dequeContainer.name ">" back.text :=
    apart_of_signs dequeContainer_mem (by decide) back.text
  have absent : ¬ dequeContainer.name <:+: ">" ++ back.text := by
    rw [Text.infix_append_of_apart bracket]
    exact back.unnamed dequeContainer_mem
  have usual : [", deque<".toList, ">>".toList] ⊆ adaptorPieces := by decide
  have plain := adaptor.colon_not_mem_woven front back name usual
  rw [← fullName_eq_woven, fullName_eq_opening, shape] at plain
  rw [spelled_eq_opening, List.append_assoc, List.append_assoc] at apart
  rw [spelled_eq_opening, fullName_eq_opening, shape, shape]
  exact Container.dropDefaults_fullName dequeContainer_ne_nil (by decide)
    (isPassed_of_isIdentifier name.identifier) (trim_of_isIdentifier name.identifier)
    (apart.append (adaptor.deque_apart_opening name _)) absent plain

/-- The deque of an adaptor is dropped when its own allocator is gone. -/
theorem dropDefaults_adaptor :
    adaptor.container.dropDefaults
        (front.text ++ (adaptor.container.fullName name.text ++ back.text)) =
      front.text ++ (adaptor.container.shortName name.text ++ back.text) := by
  have usual : [">".toList] ⊆ adaptorPieces := by decide
  have plain := adaptor.colon_not_mem_woven front back name usual
  have apart : Text.Apart adaptor.container.name front.text
      (adaptor.container.fullName name.text ++ back.text) := by
    obtain ⟨others, same⟩ := adaptor.container.name_prefix_fullName name.text
    rw [← same, List.append_assoc]
    exact adaptor.name_apart_front front _
  rw [← shortName_eq_woven] at plain
  exact Container.dropDefaults_fullName adaptor.name_ne_nil
    (by cases adaptor <;> decide) (isPassed_of_isIdentifier name.identifier)
    (trim_of_isIdentifier name.identifier) apart (back.unnamed adaptor.container_mem) plain

/-- An adaptor over a deque without an allocator is another one than over a deque with it. -/
theorem fullName_not_prefix_spelled :
    ¬ adaptor.container.fullName name.text <+: adaptor.spelled [] [] name.text ++ back.text := by
  have passed := isPassed_of_isIdentifier name.identifier
  have trimmed := trim_of_isIdentifier name.identifier
  rintro ⟨more, same⟩
  rw [fullName_eq_opening, spelled_eq_opening, List.append_assoc, List.append_assoc,
    List.append_assoc, List.append_assoc] at same
  have read := congrArg dequeContainer.element? (List.append_cancel_left same)
  rw [Container.element?_shortName_append dequeContainer_ne_nil passed,
    Container.element?_fullName_append dequeContainer_ne_nil (by decide) passed trimmed] at read
  cases read

theorem fullName_apart_spelled :
    Text.Apart (adaptor.container.fullName name.text) (adaptor.spelled [] [] name.text)
      back.text := by
  have start := adaptor.container.name_prefix_fullName name.text
  have element : ¬ adaptor.container.name <:+: name.text :=
    name.unreserved _ (List.mem_append_left _ (List.mem_map_of_mem adaptor.container_mem))
  have usual : [", deque<".toList, ", allocator<".toList, ">>>".toList] ⊆ adaptorPieces := by decide
  have tail (text : Text) :
      Text.Apart adaptor.container.name (adaptor.container.name ++ "<").tail text :=
    Text.apart_of_unrelated (by cases adaptor <;> decide) text
  have inner := apart_woven element (fun piece inside => isClear_adaptorPieces _
    adaptor.container_mem (by cases adaptor <;> decide) piece (usual inside)) back.text
  have behind := Text.Apart.of_start ((tail _).append inner) start
  have here := adaptor.fullName_not_prefix_spelled back name
  obtain ⟨c, others, shape⟩ : ∃ c others, adaptor.container.name ++ ("<" : Text) = c :: others := by
    cases adaptor <;> exact ⟨_, _, rfl⟩
  rw [spelled_eq_woven, shape, List.cons_append] at here ⊢
  rw [shape] at behind
  exact Text.apart_cons.mpr ⟨here, behind⟩

/-- While its deque has an allocator, an adaptor keeps it. -/
theorem dropDefaults_adaptor_spelled :
    adaptor.container.dropDefaults
        (front.text ++ (adaptor.spelled [] [] name.text ++ back.text)) =
      front.text ++ (adaptor.spelled [] [] name.text ++ back.text) := by
  have start := adaptor.container.name_prefix_fullName name.text
  have before : Text.Apart adaptor.container.name front.text
      (adaptor.spelled [] [] name.text ++ back.text) := by
    rw [spelled_append, List.nil_append]
    exact adaptor.name_apart_front front _
  have found : adaptor.container.element?
      (front.text ++ (adaptor.spelled [] [] name.text ++ back.text)) = some name.text := by
    rw [Container.element?_append_of_apart before, spelled_append, List.nil_append,
      Container.element?_of_isPassed adaptor.name_ne_nil
        (isPassed_of_isIdentifier name.identifier) (trim_of_isIdentifier name.identifier)]
  have absent : ¬ adaptor.container.fullName name.text <:+:
      front.text ++ (adaptor.spelled [] [] name.text ++ back.text) := by
    rw [Text.infix_append_of_apart (Text.Apart.of_start before start),
      Text.infix_append_of_apart (adaptor.fullName_apart_spelled back name)]
    exact fun inside => back.unnamed adaptor.container_mem (start.isInfix.trans inside)
  have unchanged := Text.replaceAll_of_not_infix
    (adaptor.container.shortName name.text) absent
  have usual : [", deque<".toList, ", allocator<".toList, ">>>".toList] ⊆ adaptorPieces := by decide
  have plain := adaptor.colon_not_mem_woven front back name usual
  rw [← spelled_eq_woven] at plain
  rw [Container.dropDefaults_of_element?_eq_some found (by rwa [unchanged]), unchanged]

/-- The arguments of an adaptor are read through: at most three brackets are open in them. -/
theorem exists_arguments :
    ∃ arguments, adaptor.spelled [] [] name.text = adaptor.container.name ++ arguments ∧
      ReadThrough 0 3 arguments := by
  have inner (height : Nat) : ReadThrough 1 height name.text :=
    (readThrough_of_isIdentifier name.identifier).of_le (Nat.zero_le 1) (Nat.zero_le height)
  have comma (height : Nat) : ReadThrough 1 height "," :=
    readThrough_comma.of_le (Nat.le_refl 1) (Nat.zero_le height)
  have allocator : ReadThrough 0 1 " allocator" :=
    (readThrough_of_inert (by decide)).of_le (Nat.le_refl 0) (Nat.zero_le 1)
  have deque : ReadThrough 0 2 " deque" :=
    (readThrough_of_inert (by decide)).of_le (Nat.le_refl 0) (Nat.zero_le 2)
  have last := (allocator.append (inner 0).enclosed).of_le (Nat.zero_le 1) (Nat.le_refl 1)
  have more := ((inner 1).append ((comma 1).append last)).enclosed
  have further := (deque.append more).of_le (Nat.zero_le 1) (Nat.le_refl 2)
  refine ⟨_, ?_, ((inner 2).append ((comma 2).append further)).enclosed⟩
  have comma : (", " : Text) = "," ++ " " := rfl
  have dequeOpening : ("deque<" : Text) = "deque" ++ "<" := rfl
  have allocatorOpening : ("allocator<" : Text) = "allocator" ++ "<" := rfl
  have dequeArgument : (" deque" : Text) = " " ++ "deque" := rfl
  have allocatorArgument : (" allocator" : Text) = " " ++ "allocator" := rfl
  rw [spelled, comma, dequeOpening, allocatorOpening, dequeArgument, allocatorArgument]
  simp only [List.append_assoc, List.nil_append]

/-- Where the front and the adaptor's name together hold the name of a container that goes on with
the adaptor's, the rest of that is taken for its arguments, and nothing is dropped. -/
theorem dropDefaults_straddled {container : Container} (known : container ∈ containers)
    {left right more : Text} {c : Char} (halves : container.name = left ++ right)
    (goesOn : adaptor.container.name = right ++ c :: more) (word : IsIdentifier more)
    (ascii : c.toNat < 128) (once : ∀ d ∈ container.name.head?, d ∉ container.name.tail)
    (ends : left <:+ front.text) :
    container.dropDefaults (front.text ++ (adaptor.spelled [] [] name.text ++ back.text)) =
      front.text ++ (adaptor.spelled [] [] name.text ++ back.text) := by
  obtain ⟨lead, same⟩ := ends
  obtain ⟨arguments, shape, through⟩ := adaptor.exists_arguments name
  have solid := (isIdentifier_containerName container known).ne_nil
  have leading : ¬ container.name <:+: lead := fun inside =>
    front.unnamed known (inside.trans ⟨[], left, same⟩)
  have whole : front.text ++ (adaptor.spelled [] [] name.text ++ back.text) =
      lead ++ (container.name ++ c :: (more ++ (arguments ++ back.text))) := by
    rw [shape, goesOn, halves, ← same]
    simp only [List.append_assoc, List.cons_append]
  have apart : Text.Apart container.name lead
      (container.name ++ c :: (more ++ (arguments ++ back.text))) := by
    refine Text.apart_of_ended leading ?_
    rw [List.head?_append_of_ne_nil _ solid]
    exact once
  have behind : ReadThrough 0 3 (more ++ (arguments ++ back.text)) :=
    ((readThrough_of_isIdentifier word).of_le (Nat.le_refl 0) (Nat.zero_le 3)).append
      (through.append (back.readThrough.of_le (Nat.le_refl 0) (Nat.zero_le 3)))
  apply Container.dropDefaults_of_element?_eq_none
  rw [whole, Container.element?_append_of_apart apart, Container.element?_name_append solid ascii,
    argumentFrom?_of_isPassed (behind.isPassed (by decide)), Option.map_none]

end

end Adaptor

section

variable (front back : PlainText) (name : PlainName)

/-- In a front that does not end with the left half of a container's name, that name does not
begin. -/
theorem PlainText.apart_of_halves {container : Container} (known : container ∈ containers)
    {left right start : Text} (halves : container.name = left ++ right)
    (only : ∀ tail ∈ container.name.tails, tail ≠ [] → tail ≠ container.name →
      (tail <+: start ∨ start <+: tail) → tail = right)
    (unended : ¬ left <:+ front.text) (rest : Text) :
    Text.Apart container.name front.text (start ++ rest) := by
  refine Text.apart_of_unmet (front.unnamed known) fun begun tail same solid started ends starts =>
    unended ?_
  have listed : tail ∈ container.name.tails :=
    (List.mem_tails tail _).mpr (same ▸ List.suffix_append begun tail)
  have proper : tail ≠ container.name := fun equal => solid (by
    rw [← equal] at same
    exact List.self_eq_append_left.mp same)
  have related := List.prefix_or_prefix_of_prefix starts (List.prefix_append start rest)
  have isRight := only tail listed started proper related
  rw [halves, isRight] at same
  rwa [List.append_cancel_right same]

theorem containers_eq :
    containers = [⟨"vector", ["allocator"]⟩, ⟨"list", ["allocator"]⟩, Adaptor.queue.container,
      dequeContainer, Adaptor.stack.container, ⟨"set", ["less", "allocator"]⟩] := rfl

theorem dropDefaults_list_stack :
    Container.dropDefaults ⟨"list", ["allocator"]⟩
        (front.text ++ (Adaptor.stack.spelled [] [] name.text ++ back.text)) =
      front.text ++ (Adaptor.stack.spelled [] [] name.text ++ back.text) := by
  have halves : ("list" : Text) = "li" ++ "st" := rfl
  by_cases ends : "li".toList <:+ front.text
  · have goesOn : Adaptor.stack.container.name = "st" ++ 'a' :: "ck" := rfl
    exact Adaptor.stack.dropDefaults_straddled front back name (by decide) halves goesOn (by decide)
      (by decide) (by decide) ends
  · rw [Adaptor.spelled_eq_woven]
    refine Adaptor.stack.dropDefaults_woven front back name (by decide) (by decide) (by decide) ?_
      (by decide)
    exact front.apart_of_halves (by decide) halves (by decide) ends

/-- Dropping default arguments leaves the element of a stack only. -/
theorem dropDefaultArguments_stack :
    dropDefaultArguments (front.text ++ (Adaptor.stack.spelled [] [] name.text ++ back.text)) =
      front.text ++ (Adaptor.stack.container.shortName name.text ++ back.text) := by
  have idle {container : Container} {pieces : List Text}
      (stranger : Adaptor.stack.IsStranger container) (usual : pieces ⊆ adaptorPieces) :=
    Adaptor.stack.dropDefaults_stranger front back name stranger usual
  have apart : Text.Apart dequeContainer.name front.text
      (Adaptor.stack.spelled [] [] name.text ++ back.text) := by
    rw [Adaptor.spelled_append, List.nil_append]
    exact Adaptor.stack.apart_front front dequeContainer_mem (by decide) _
  rw [dropDefaultArguments, containers_eq]
  simp only [List.foldl_cons, List.foldl_nil]
  rw [Adaptor.spelled_eq_woven, idle (by decide) (by decide),
    ← Adaptor.spelled_eq_woven, dropDefaults_list_stack, Adaptor.spelled_eq_woven,
    idle (by decide) (by decide),
    ← Adaptor.spelled_eq_woven, Adaptor.stack.dropDefaults_deque front back name apart,
    Adaptor.stack.dropDefaults_adaptor front back name, Adaptor.shortName_eq_woven,
    idle (by decide) (by decide)]

/-- A queue keeps its deque, and that its allocator too if its name begins at the end of the
front. -/
theorem dropDefaultArguments_queue :
    dropDefaultArguments (front.text ++ (Adaptor.queue.spelled [] [] name.text ++ back.text)) =
      front.text ++ ((if "de".toList <:+ front.text then Adaptor.queue.spelled [] [] name.text
        else Adaptor.queue.container.fullName name.text) ++ back.text) := by
  have idle {container : Container} {pieces : List Text}
      (stranger : Adaptor.queue.IsStranger container) (usual : pieces ⊆ adaptorPieces) :=
    Adaptor.queue.dropDefaults_stranger front back name stranger usual
  have halves : dequeContainer.name = "de" ++ "que" := rfl
  rw [dropDefaultArguments, containers_eq]
  simp only [List.foldl_cons, List.foldl_nil]
  rw [Adaptor.spelled_eq_woven, idle (by decide) (by decide),
    idle (by decide) (by decide), ← Adaptor.spelled_eq_woven,
    Adaptor.queue.dropDefaults_adaptor_spelled front back name]
  split
  · rename_i ends
    have goesOn : Adaptor.queue.container.name = "que" ++ 'u' :: "e" := rfl
    rw [Adaptor.queue.dropDefaults_straddled front back name dequeContainer_mem halves goesOn
      (by decide) (by decide) (by decide) ends, Adaptor.spelled_eq_woven,
      idle (by decide) (by decide),
      idle (by decide) (by decide)]
  · rename_i unended
    have apart : Text.Apart dequeContainer.name front.text
        (Adaptor.queue.spelled [] [] name.text ++ back.text) := by
      rw [Adaptor.spelled_append, List.nil_append]
      exact front.apart_of_halves dequeContainer_mem halves (by decide) unended _
    rw [Adaptor.queue.dropDefaults_deque front back name apart, Adaptor.fullName_eq_woven,
      idle (by decide) (by decide),
      idle (by decide) (by decide)]

end

/-- Around an adaptor nothing but the outer ends of a text is trimmed. -/
theorem Adaptor.trim_around (adaptor : Adaptor) {body : Text}
    (enclosed : ∃ inner, body = adaptor.container.name ++ (inner ++ ">")) (front back : Text) :
    Text.trim (front ++ (body ++ back)) =
      Text.trimStart front ++ (body ++ Text.trimEnd back) := by
  obtain ⟨inner, rfl⟩ := enclosed
  have start : adaptor.container.name ≠ [] ∧
      Text.trim adaptor.container.name = adaptor.container.name := by
    cases adaptor <;> decide
  exact Text.trim_append_append_of_trimmed (List.append_ne_nil_of_left_ne_nil start.1 _)
    (Text.trim_append_append start (by decide) inner) front back

theorem Adaptor.exists_enclosed_spelled (adaptor : Adaptor) (element : Text) :
    ∃ inner, adaptor.spelled [] [] element = adaptor.container.name ++ (inner ++ ">") := by
  refine ⟨"<" ++ element ++ ", " ++ "deque<" ++ element ++ ", " ++ "allocator<" ++ element ++ ">" ++
    ">", ?_⟩
  rw [spelled]
  simp only [List.append_assoc, List.nil_append]

theorem Container.exists_enclosed_fullName (container : Container) (element : Text) :
    ∃ inner, container.fullName element = container.name ++ (inner ++ ">") := by
  refine ⟨"<" ++ element ++ container.defaults.flatMap (defaultArgument element), ?_⟩
  rw [fullName]
  simp only [List.append_assoc]

theorem Container.exists_enclosed_shortName (container : Container) (element : Text) :
    ∃ inner, container.shortName element = container.name ++ (inner ++ ">") := by
  refine ⟨"<" ++ element, ?_⟩
  rw [shortName]
  simp only [List.append_assoc]

/-- Around an adaptor with its default arguments written out, a stack is left with its element only.
A queue is left with its deque, and with the allocator of that as well where the front ends with
`de`. -/
theorem simplifyFragment_adaptor (front back : PlainText) (name : PlainName) :
    simplifyFragment 1 (front.text ++ (Adaptor.stack.printed name.text ++ back.text)) =
        Text.trim (front.text ++ (Adaptor.stack.container.shortName name.text ++ back.text)) ∧
      simplifyFragment 1 (front.text ++ (Adaptor.queue.printed name.text ++ back.text)) =
        Text.trim (front.text ++ ((if "de".toList <:+ front.text
          then Adaptor.queue.spelled [] [] name.text
          else Adaptor.queue.container.fullName name.text) ++ back.text)) := by
  obtain ⟨blanks, leads, -⟩ := Text.blanks_append_trimStart front.text
  obtain ⟨trail, trails, -⟩ := Text.trimEnd_append_blanks back.text
  have start : Text.trimStart front.text <:+: front.text :=
    ⟨blanks, [], by rw [List.append_nil]; exact leads.symm⟩
  have stop : Text.trimEnd back.text <:+: back.text := ⟨[], trail, trails.symm⟩
  have shortened (adaptor : Adaptor) :=
    adaptor.shortenStandardNames_printed (front.part start) (back.part stop) name
  constructor
  · have left := dropDefaultArguments_stack (front.part start) (back.part stop) name
    rw [simplifyFragment_one, Adaptor.carryOutBindings_printed, Adaptor.stack.trim_around
      (Container.exists_enclosed_shortName _ name.text)]
    exact (shortened .stack).trans left
  · have left := dropDefaultArguments_queue (front.part start) (back.part stop) name
    have ends : "de".toList <:+ Text.trimStart front.text ↔ "de".toList <:+ front.text :=
      Text.suffix_trimStart_iff (by decide) front.text
    have enclosed : ∃ inner, (if "de".toList <:+ front.text
        then Adaptor.queue.spelled [] [] name.text
        else Adaptor.queue.container.fullName name.text) =
          Adaptor.queue.container.name ++ (inner ++ ">") := by
      split
      · exact Adaptor.queue.exists_enclosed_spelled name.text
      · exact Container.exists_enclosed_fullName _ name.text
    rw [simplifyFragment_one, Adaptor.carryOutBindings_printed, Adaptor.queue.trim_around enclosed]
    rw [PlainText.part, PlainText.part] at left
    simp only [ends] at left
    exact (shortened .queue).trans left

/-- A queue keeps its deque. -/
theorem simplifyFragment_intQueue :
    Adaptor.queue.printed "int" = "std::queue<int, std::deque<int, std::allocator<int> > >" ∧
      simplifyFragment 1 (Adaptor.queue.printed "int") = "queue<int, deque<int>>" ∧
      simplifyFragment 1 (Adaptor.queue.printed "int") ≠
        Adaptor.queue.container.shortName "int" := by
  decide +kernel

/-- Behind the right letters it keeps the allocator too. -/
example : simplifyFragment 1 ("de" ++ Adaptor.queue.printed "int") =
    "dequeue<int, deque<int, allocator<int>>>" := by
  decide +kernel

end CompilerFront.Simplify
