import HeapLens.Proofs.Outcome
import HeapLens.Query.Path.Reader
import Mathlib.Data.List.Forall2
import Mathlib.Data.List.TakeWhile

/-!
# How paths are written

`Path.Written` is the grammar of path texts: a root `this` that may be left out, and items, each of
which is a bare name or a bracket. Reading accepts exactly what is written by this grammar, and
finds the names in their order; every other text is refused as a whole.
-/

set_option autoImplicit false

namespace HeapLens

namespace Text

/-- Whether `core` is the text without the blanks around it. -/
def Trims (text core : List Char) : Prop :=
  ∃ before after, text = before ++ core ++ after ∧ (∀ c ∈ before ++ after, isBlank c = true) ∧
    (∀ c ∈ core.head?, isBlank c = false) ∧ ∀ c ∈ core.getLast?, isBlank c = false

theorem not_mem_head?_dropWhile {p : Char → Bool} {text : List Char} {c : Char}
    (h : c ∈ (text.dropWhile p).head?) : p c = false := by
  have := List.head?_dropWhile_not p text
  rw [Option.mem_def.mp h] at this
  exact this

theorem trims_trim (text : List Char) : Trims text (trim text) := by
  have front := List.takeWhile_append_dropWhile (p := isBlank) (l := text)
  have back := congrArg List.reverse
    (List.takeWhile_append_dropWhile (p := isBlank) (l := (text.dropWhile isBlank).reverse))
  rw [List.reverse_append, List.reverse_reverse] at back
  refine ⟨text.takeWhile isBlank, ((text.dropWhile isBlank).reverse.takeWhile isBlank).reverse,
    ?_, ?_, ?_, ?_⟩
  · rw [List.append_assoc, trim, back, front]
  · intro c mem
    rw [List.mem_append, List.mem_reverse] at mem
    exact mem.elim List.mem_takeWhile_imp List.mem_takeWhile_imp
  · intro c first
    have head : c ∈ (text.dropWhile isBlank).head? := by
      rw [← back, List.head?_append]
      rw [trim] at first
      simp [Option.mem_def.mp first]
    exact not_mem_head?_dropWhile head
  · intro c last
    rw [trim, List.getLast?_reverse] at last
    exact not_mem_head?_dropWhile last

theorem dropWhile_eq_self {p : Char → Bool} {text : List Char}
    (h : ∀ c ∈ text.head?, p c = false) : text.dropWhile p = text := by
  cases text with
  | nil => rfl
  | cons c rest => simp [h c rfl]

theorem trims_iff {text core : List Char} : Trims text core ↔ core = trim text := by
  constructor
  · rintro ⟨before, after, rfl, blank, first, last⟩
    have lead : ∀ c ∈ before, isBlank c = true := fun c mem => blank c (by simp [mem])
    have trail : ∀ c ∈ after.reverse, isBlank c = true := fun c mem => blank c (by simp_all)
    have last' : core.reverse.dropWhile isBlank = core.reverse :=
      dropWhile_eq_self (by rwa [List.head?_reverse])
    cases core with
    | nil =>
      have gone : (before ++ after).dropWhile isBlank = [] :=
        List.dropWhile_eq_nil_iff.mpr blank
      rw [trim, List.append_nil, gone]
      rfl
    | cons c rest =>
      rw [trim, List.append_assoc, List.dropWhile_append_of_pos lead,
        @dropWhile_eq_self isBlank (c :: rest ++ after) (by simpa using first),
        List.reverse_append, List.dropWhile_append_of_pos trail, last', List.reverse_reverse]
  · rintro rfl
    exact trims_trim text

end Text

namespace Path

structure IsName (text : List Char) : Prop where
  nonempty : text ≠ []
  chars : ∀ c ∈ text, c ∉ ['.', '[', ']', '\'', '"'] ∧ Text.isBlank c = false

inductive Bracket : List Char → List (List Char) → Prop
  | mk {quote : Char} {body : List Char} (quotes : quote = '\'' ∨ quote = '"')
    (free : quote ∉ body) (names : ∀ name ∈ body.splitOn '.', name ≠ []) :
    Bracket ('[' :: quote :: (body ++ [quote, ']'])) (body.splitOn '.')

inductive Later : List Char → List (List Char) → Prop
  | done : Later [] []
  | name {name rest : List Char} {names : List (List Char)} :
    IsName name → Later rest names → Later ('.' :: (name ++ rest)) (name :: names)
  | bracket {text rest : List Char} {inner names : List (List Char)} :
    Bracket text inner → Later rest names → Later (text ++ rest) (inner ++ names)

inductive Item : List Char → List (List Char) → Prop
  | name {name : List Char} : IsName name → Item name [name]
  | bracket {text : List Char} {names : List (List Char)} : Bracket text names → Item text names

/-- The text of one or more items, and their names. -/
inductive Items : List Char → List (List Char) → Prop
  | mk {item rest : List Char} {names more : List (List Char)} :
    Item item names → Later rest more → Items (item ++ rest) (names ++ more)

def root : List Char := ['t', 'h', 'i', 's']

/-- Whether a text begins with the word as a root, and not with a name that begins alike. -/
def HasRoot (text : List Char) : Prop :=
  ∃ after, text = root ++ after ∧ (after = [] ∨ after.head? = some '[' ∨ after.head? = some '.')

/-- The text of a path without blanks around it, and its names. -/
inductive Written : List Char → List (List Char) → Prop
  | root : Written root []
  | rootBracket {items : List Char} {names : List (List Char)} :
    Items items names → items.head? = some '[' → Written (root ++ items) names
  | rootDot {items : List Char} {names : List (List Char)} :
    Items items names → Written (root ++ '.' :: items) names
  | bare {items : List Char} {names : List (List Char)} :
    ¬HasRoot items → Items items names → Written items names

structure Denotes (name : List Char) (step : Step) : Prop where
  name_eq : step.name = String.ofList name
  attribute_iff : (∃ s, step = .attribute s) ↔ name.head? = some '@'

theorem denotes_iff {name : List Char} {step : Step} :
    Denotes name step ↔ step = .ofName (String.ofList name) := by
  have sign : attributeSign = '@' := rfl
  constructor
  · rintro ⟨same, marked⟩
    rcases step with s | s
    · obtain rfl : s = String.ofList name := same
      have other : name.head? ≠ some '@' := fun h => by simpa using marked.mpr h
      simp [Step.ofName, sign, other]
    · obtain rfl : s = String.ofList name := same
      simp [Step.ofName, sign, marked.mp ⟨_, rfl⟩]
  · rintro rfl
    by_cases h : name.head? = some '@' <;>
      exact ⟨by simp [Step.ofName, sign, h, Step.name], by simp [Step.ofName, sign, h]⟩

theorem forall₂_denotes_iff {names : List (List Char)} {steps : List Step} :
    List.Forall₂ Denotes names steps ↔
      steps = names.map fun name => .ofName (String.ofList name) := by
  induction names generalizing steps with
  | nil => cases steps <;> simp
  | cons name names ih => cases steps <;> simp [denotes_iff, ih]

theorem pieces_eq_splitOn (text : List Char) : pieces text = text.splitOn '.' := by
  induction text with
  | nil => rfl
  | cons c rest ih =>
    rw [pieces, ih, List.splitOn_cons_eq_if_modifyHead]
    by_cases dot : c = '.'
    · simp [dot]
    · cases split : rest.splitOn '.' with
      | nil => exact absurd split (List.splitOn_ne_nil '.' rest)
      | cons piece more => simp [dot]

theorem IsName.not_endsName {name : List Char} (h : IsName name) :
    ∀ c ∈ name, (!endsName c) = true := by
  intro c mem
  have := (h.chars c mem).1
  simp_all [endsName]

theorem IsName.isNameChar {name : List Char} (h : IsName name) :
    ∀ c ∈ name, Path.isNameChar c = true := by
  intro c mem
  obtain ⟨special, blank⟩ := h.chars c mem
  simp_all [Path.isNameChar, isQuote]

theorem Later.endsName {rest : List Char} {names : List (List Char)} (h : Later rest names) :
    ∀ c ∈ rest.head?, Path.endsName c = true := by
  cases h with
  | done => simp
  | name => simp [Path.endsName]
  | bracket b =>
    cases b
    simp [Path.endsName]

theorem readItem_name {name rest : List Char} {names : List (List Char)} (h : IsName name)
    (later : Later rest names) : readItem (name ++ rest) = .ok ([name], rest) := by
  have stop : ∀ c ∈ rest.head?, (!Path.endsName c) = false := by simpa using later.endsName
  have taken : (name ++ rest).takeWhile (!Path.endsName ·) = name := by
    rw [List.takeWhile_append_of_pos h.not_endsName]
    cases rest with
    | nil => simp
    | cons c rest => simp [stop c rfl]
  have dropped : (name ++ rest).dropWhile (!Path.endsName ·) = rest := by
    rw [List.dropWhile_append_of_pos h.not_endsName, Text.dropWhile_eq_self stop]
  have read : readItem (name ++ rest) = readName (name ++ rest) := by
    cases name with
    | nil => exact absurd rfl h.nonempty
    | cons c name =>
      have := (h.chars c (by simp)).1
      rw [List.cons_append, readItem]
      rintro inner ⟨rfl, -⟩
      simp at this
  rw [read, readName, taken, dropped]
  simp [h.nonempty, List.all_eq_true.mpr h.isNameChar]

theorem readItem_bracket {text : List Char} {names : List (List Char)} (h : Bracket text names)
    (rest : List Char) : readItem (text ++ rest) = .ok (names, rest) := by
  cases h with
  | @mk quote body quotes free filled =>
    have inside : ∀ c ∈ body, decide (c ≠ quote) = true := by
      intro c mem
      simpa using fun eq : c = quote => free (eq ▸ mem)
    have isQuote : isQuote quote = true := by simpa [isQuote] using quotes
    have taken : (body ++ quote :: ']' :: rest).takeWhile (· ≠ quote) = body := by
      rw [List.takeWhile_append_of_pos inside]
      simp
    have dropped : (body ++ quote :: ']' :: rest).dropWhile (· ≠ quote) = quote :: ']' :: rest := by
      rw [List.dropWhile_append_of_pos inside]
      simp
    have noneEmpty : (body.splitOn '.').any List.isEmpty = false := by
      simpa using filled
    have shape : '[' :: quote :: (body ++ [quote, ']']) ++ rest =
        '[' :: quote :: (body ++ quote :: ']' :: rest) := by simp
    rw [shape, readItem, readBracket, pieces_eq_splitOn, taken, dropped]
    simp [isQuote, noneEmpty]

theorem Item.readItem {item rest : List Char} {names more : List (List Char)}
    (h : Item item names) (later : Later rest more) :
    Path.readItem (item ++ rest) = .ok (names, rest) := by
  cases h with
  | name isName => exact readItem_name isName later
  | bracket quoted => exact readItem_bracket quoted rest

theorem isName_of_readName {text rest : List Char} {names : List (List Char)}
    (h : readName text = .ok (names, rest)) :
    ∃ name, IsName name ∧ names = [name] ∧ text = name ++ rest := by
  have split := List.takeWhile_append_dropWhile (p := (!endsName ·)) (l := text)
  have inside : ∀ c ∈ text.takeWhile (!endsName ·), endsName c = false := fun c mem => by
    simpa using List.mem_takeWhile_imp mem
  unfold readName at h
  generalize text.takeWhile (!endsName ·) = name at *
  by_cases empty : name.isEmpty = true
  · simp [empty] at h
  · by_cases chars : name.all isNameChar = true
    · simp only [empty, chars, if_true, Bool.false_eq_true, if_false, Except.ok.injEq,
        Prod.mk.injEq] at h
      obtain ⟨rfl, rfl⟩ := h
      refine ⟨name, ⟨by simpa using empty, fun c mem => ?_⟩, rfl, split.symm⟩
      have ends := inside c mem
      have char := List.all_eq_true.mp chars c mem
      simp_all [endsName, isNameChar, isQuote]
    · simp [empty, chars] at h

theorem bracket_of_readBracket {inner rest : List Char} {names : List (List Char)}
    (h : readBracket inner = .ok (names, rest)) :
    ∃ text, Bracket text names ∧ '[' :: inner = text ++ rest := by
  cases inner with
  | nil => cases h
  | cons quote body =>
    have split := List.takeWhile_append_dropWhile (p := (· ≠ quote)) (l := body)
    have free : quote ∉ body.takeWhile (· ≠ quote) := fun mem => by
      simpa using List.mem_takeWhile_imp mem
    have close : ∀ c ∈ (body.dropWhile (· ≠ quote)).head?, decide (c ≠ quote) = false :=
      fun c => Text.not_mem_head?_dropWhile
    simp only [readBracket, pieces_eq_splitOn] at h
    generalize body.takeWhile (· ≠ quote) = quoted at *
    generalize body.dropWhile (· ≠ quote) = after at *
    by_cases quotes : isQuote quote = true
    · simp only [quotes, Bool.not_true, Bool.false_eq_true, if_false] at h
      cases after with
      | nil => simp at h
      | cons c after =>
        obtain rfl : c = quote := by simpa using close c rfl
        by_cases empty : (quoted.splitOn '.').any List.isEmpty = true
        · simp [empty] at h
        · simp only [empty, Bool.false_eq_true, if_false] at h
          split at h
          · cases h
            have filled : ∀ name ∈ quoted.splitOn '.', name ≠ [] := by
              rintro name mem rfl
              exact empty (List.any_eq_true.mpr ⟨[], mem, rfl⟩)
            refine ⟨_, .mk (by simpa [isQuote] using quotes) free filled, ?_⟩
            simp [← split]
          · cases h
    · simp [quotes] at h

theorem item_of_readItem {text rest : List Char} {names : List (List Char)}
    (h : readItem text = .ok (names, rest)) : ∃ item, Item item names ∧ text = item ++ rest := by
  unfold readItem at h
  split at h
  · obtain ⟨item, quoted, eq⟩ := bracket_of_readBracket h
    exact ⟨item, .bracket quoted, eq⟩
  · obtain ⟨name, isName, rfl, eq⟩ := isName_of_readName h
    exact ⟨name, .name isName, eq⟩

theorem Item.length_pos {item : List Char} {names : List (List Char)} (h : Item item names) :
    0 < item.length := by
  cases h with
  | name isName => exact List.length_pos_iff.mpr isName.nonempty
  | bracket quoted => cases quoted; simp

theorem Items.ne_nil {text : List Char} {names : List (List Char)} (h : Items text names) :
    text ≠ [] := by
  cases h with
  | mk item later =>
    exact List.append_ne_nil_of_left_ne_nil (List.length_pos_iff.mp item.length_pos) _

theorem Item.names_ne_nil {item : List Char} {names : List (List Char)} (h : Item item names) :
    names ≠ [] := by
  cases h with
  | name => simp
  | bracket quoted =>
    cases quoted
    exact List.splitOn_ne_nil _ _

theorem Items.names_ne_nil {text : List Char} {names : List (List Char)} (h : Items text names) :
    names ≠ [] := by
  cases h with
  | mk item later => exact List.append_ne_nil_of_left_ne_nil item.names_ne_nil _

theorem readSeam_length {rest next : List Char} (h : readSeam rest = .ok next) :
    next.length ≤ rest.length := by
  unfold readSeam at h
  split at h <;> cases h <;> simp

/-- What follows an item is passed over to the next one, unless it is nothing. -/
theorem later_iff {rest : List Char} {names : List (List Char)} :
    Later rest names ↔
      ∃ next, readSeam rest = .ok next ∧ (next = [] ∧ names = [] ∨ Items next names) := by
  constructor
  · intro h
    cases h with
    | done => exact ⟨[], rfl, .inl ⟨rfl, rfl⟩⟩
    | @name name rest names isName later =>
      refine ⟨name ++ rest, ?_, .inr (.mk (.name isName) later)⟩
      cases name with
      | nil => exact absurd rfl isName.nonempty
      | cons c name =>
        have other : c ≠ '[' := by
          rintro rfl
          simpa using (isName.chars '[' (by simp)).1
        simp [readSeam, other]
    | @bracket text rest inner names quoted later =>
      refine ⟨text ++ rest, ?_, .inr (.mk (.bracket quoted) later)⟩
      cases quoted
      rfl
  · rintro ⟨next, seam, last⟩
    unfold readSeam at seam
    split at seam
    · cases seam
      rcases last with ⟨-, rfl⟩ | items
      · exact .done
      · exact absurd rfl items.ne_nil
    · cases seam
    · cases seam
    · rename_i rest more other
      cases seam
      rcases last with ⟨rfl, -⟩ | items
      · exact absurd rfl more
      · cases items with
        | mk item later =>
          cases item with
          | name isName => exact .name isName later
          | bracket quoted =>
            cases quoted
            exact absurd rfl (other _)
    · cases seam
      rcases last with ⟨eq, -⟩ | items
      · cases eq
      · rename_i rest
        generalize begun : '[' :: rest = next at items
        cases items with
        | @mk item _ _ _ isItem later =>
          cases isItem with
          | name isName =>
            cases item with
            | nil => exact absurd rfl isName.nonempty
            | cons c item =>
              obtain ⟨rfl, -⟩ := List.cons.inj begun
              simpa using (isName.chars '[' (by simp)).1
          | bracket quoted => exact .bracket quoted later
    · cases seam

theorem readItems_nil_eq_ok_iff {count : Nat} {names : List (List Char)} :
    readItems count [] = .ok names ↔ ([] : List Char) = [] ∧ names = [] ∨ Items [] names := by
  have read : readItems count [] = .ok [] := by cases count <;> rfl
  rw [read]
  constructor
  · intro h
    cases h
    exact .inl ⟨rfl, rfl⟩
  · rintro (⟨-, rfl⟩ | items)
    · rfl
    · exact absurd rfl items.ne_nil

theorem readItems_succ_eq_ok_iff {count : Nat} {text : List Char} {names : List (List Char)}
    (more_text : text ≠ []) :
    readItems (count + 1) text = .ok names ↔
      ∃ here rest next more, readItem text = .ok (here, rest) ∧ readSeam rest = .ok next ∧
        readItems count next = .ok more ∧ names = here ++ more := by
  cases text with
  | nil => exact absurd rfl more_text
  | cons c text =>
    simp only [readItems, bind_eq_ok_iff]
    constructor
    · rintro ⟨⟨here, rest⟩, item, next, seam, more, later, eq⟩
      cases eq
      exact ⟨here, rest, next, more, item, seam, later, rfl⟩
    · rintro ⟨here, rest, next, more, item, seam, later, rfl⟩
      exact ⟨(here, rest), item, next, seam, more, later, rfl⟩

theorem readItems_eq_ok_iff {count : Nat} {text : List Char} {names : List (List Char)}
    (enough : text.length ≤ count) :
    readItems count text = .ok names ↔ text = [] ∧ names = [] ∨ Items text names := by
  by_cases empty : text = []
  · subst empty
    exact readItems_nil_eq_ok_iff
  induction count generalizing text names with
  | zero => exact absurd (List.length_eq_zero_iff.mp (Nat.le_zero.mp enough)) empty
  | succ count ih =>
    have rest_of {item rest next : List Char} {here more : List (List Char)}
        (isItem : Item item here) (short : (item ++ rest).length ≤ count + 1)
        (seam : readSeam rest = .ok next) :
        readItems count next = .ok more ↔ next = [] ∧ more = [] ∨ Items next more := by
      have shorter := readSeam_length seam
      have some := isItem.length_pos
      rw [List.length_append] at short
      by_cases last : next = []
      · subst last
        exact readItems_nil_eq_ok_iff
      · exact ih (by omega) last
    rw [readItems_succ_eq_ok_iff empty]
    constructor
    · rintro ⟨here, rest, next, more, read, seam, later, rfl⟩
      obtain ⟨item, isItem, rfl⟩ := item_of_readItem read
      exact .inr (.mk isItem (later_iff.mpr ⟨next, seam, (rest_of isItem enough seam).mp later⟩))
    · rintro (⟨eq, -⟩ | items)
      · exact absurd eq empty
      · cases items with
        | mk isItem later =>
          obtain ⟨next, seam, found⟩ := later_iff.mp later
          exact ⟨_, _, next, _, isItem.readItem later, seam,
            (rest_of isItem enough seam).mpr found, rfl⟩

theorem dropRoot_of_not_hasRoot {text : List Char} (h : ¬HasRoot text) :
    dropRoot text = .ok text := by
  unfold dropRoot
  split
  · rename_i after
    have absent : ¬(after = [] ∨ after.head? = some '[' ∨ after.head? = some '.') :=
      fun kind => h ⟨after, rfl, kind⟩
    split <;> first | rfl | simp at absent
  · rfl

theorem readTrimmed_eq_ok_iff {text : List Char} {names : List (List Char)} :
    readTrimmed text = .ok names ↔
      text ≠ [] ∧
        ∃ rest, dropRoot text = .ok rest ∧ (rest = [] ∧ names = [] ∨ Items rest names) := by
  unfold readTrimmed
  cases text with
  | nil => simp
  | cons c text =>
    simp only [List.isEmpty_cons, Bool.false_eq_true, if_false, bind_eq_ok_iff,
      readItems_eq_ok_iff (Nat.le_refl _)]
    simp

theorem Written.readTrimmed {text : List Char} {names : List (List Char)}
    (h : Written text names) : Path.readTrimmed text = .ok names := by
  rw [readTrimmed_eq_ok_iff]
  cases h with
  | root => exact ⟨by decide, [], rfl, .inl ⟨rfl, rfl⟩⟩
  | @rootBracket items _ found head =>
    obtain ⟨rest, rfl⟩ : ∃ rest, items = '[' :: rest := by
      cases items with
      | nil => cases head
      | cons c rest => exact ⟨rest, by simpa using head⟩
    exact ⟨by simp, _, rfl, .inr found⟩
  | @rootDot items _ found =>
    cases items with
    | nil => exact absurd rfl found.ne_nil
    | cons c rest => exact ⟨by simp, _, rfl, .inr found⟩
  | bare noRoot found =>
    exact ⟨found.ne_nil, _, dropRoot_of_not_hasRoot noRoot, .inr found⟩

theorem written_of_readTrimmed {text : List Char} {names : List (List Char)}
    (h : readTrimmed text = .ok names) : Written text names := by
  obtain ⟨some, rest, dropped, found⟩ := readTrimmed_eq_ok_iff.mp h
  by_cases hasRoot : HasRoot text
  · obtain ⟨after, rfl, kind⟩ := hasRoot
    rcases after with _ | ⟨c, after⟩
    · cases dropped
      rcases found with ⟨-, rfl⟩ | items
      · exact Written.root
      · exact absurd rfl items.ne_nil
    · obtain rfl | rfl : c = '[' ∨ c = '.' := by simpa using kind
      · cases dropped
        rcases found with ⟨eq, -⟩ | items
        · cases eq
        · exact .rootBracket items rfl
      · cases after with
        | nil => cases dropped
        | cons c after =>
          cases dropped
          rcases found with ⟨eq, -⟩ | items
          · cases eq
          · exact .rootDot items
  · rw [dropRoot_of_not_hasRoot hasRoot] at dropped
    cases dropped
    rcases found with ⟨rfl, -⟩ | items
    · exact absurd rfl some
    · exact .bare hasRoot items

theorem read_eq_ok_iff {text : String} {p : Path} :
    read text = .ok p ↔
      ∃ names, Written (Text.trim text.toList) names ∧ List.Forall₂ Denotes names p.steps := by
  unfold read
  simp only [forall₂_denotes_iff]
  cases found : readTrimmed (Text.trim text.toList) with
  | ok names =>
    constructor
    · intro h
      cases h
      exact ⟨names, written_of_readTrimmed found, rfl⟩
    · rintro ⟨names', written, eq⟩
      obtain rfl : names = names' := by simpa [found] using written.readTrimmed
      exact congrArg (fun steps => Except.ok (Path.mk steps)) eq.symm
  | error flaw =>
    constructor
    · intro h
      cases h
    · rintro ⟨names', written, eq⟩
      simp [written.readTrimmed] at found

theorem exists_flaw_of_read {text : String} {e : QueryError} (h : read text = .error e) :
    ∃ flaw, read text = .error (.malformedPath text flaw) := by
  unfold read at h ⊢
  cases found : readTrimmed (Text.trim text.toList) with
  | ok names => simp [found] at h
  | error flaw => exact ⟨flaw, rfl⟩

/--
A text is a path exactly if it is written as one once the blanks around it are taken away. The steps
then stand for its names in their order. Any other text is refused, and the error carries all of it.
-/
theorem read_iff_written (text : String) :
    (∀ p, read text = .ok p ↔
      ∃ core names, Text.Trims text.toList core ∧ Written core names ∧
        List.Forall₂ Denotes names p.steps) ∧
      ((¬∃ core names, Text.Trims text.toList core ∧ Written core names) ↔
        ∃ flaw, read text = .error (.malformedPath text flaw)) := by
  simp only [Text.trims_iff, exists_and_left, exists_eq_left]
  refine ⟨fun p => read_eq_ok_iff, ?_⟩
  constructor
  · intro unwritten
    cases found : read text with
    | ok p =>
      obtain ⟨names, written, -⟩ := read_eq_ok_iff.mp found
      exact absurd ⟨names, written⟩ unwritten
    | error e => exact found ▸ exists_flaw_of_read found
  · rintro ⟨flaw, refused⟩ ⟨names, written⟩
    have accepted : read text = .ok ⟨names.map fun name => .ofName (String.ofList name)⟩ :=
      read_eq_ok_iff.mpr ⟨names, written, forall₂_denotes_iff.mpr rfl⟩
    rw [refused] at accepted
    cases accepted

end Path

end HeapLens
