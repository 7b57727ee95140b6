import HeapLens.Proofs.Query.PathText

set_option autoImplicit false

namespace HeapLens.Path

variable {text item body : List Char} {names more : List (List Char)} {p : Path}

def IsPiece (name : List Char) : Prop := name ≠ [] ∧ '.' ∉ name

theorem not_mem_of_mem_splitOn {c : Char} {piece : List Char} (mem : piece ∈ text.splitOn c) :
    c ∉ piece := by
  induction text generalizing piece with
  | nil =>
    obtain rfl : piece = [] := by simpa using mem
    exact List.not_mem_nil
  | cons d rest ih =>
    rw [List.splitOn_cons_eq_if_modifyHead] at mem
    by_cases same : d = c
    · rcases List.mem_cons.mp (by simpa [same] using mem) with rfl | later
      · exact List.not_mem_nil
      · exact ih later
    · cases split : rest.splitOn c with
      | nil => exact absurd split (List.splitOn_ne_nil c rest)
      | cons first others =>
        rw [split] at ih mem
        rcases List.mem_cons.mp (by simpa [same] using mem) with rfl | later
        · have free := ih List.mem_cons_self
          simp [free, Ne.symm same]
        · exact ih (List.mem_cons_of_mem _ later)

theorem IsName.isPiece {name : List Char} (h : IsName name) : IsPiece name :=
  ⟨h.nonempty, fun dot => (h.chars '.' dot).1 (by simp)⟩

theorem Bracket.isPiece (h : Bracket text names) : ∀ name ∈ names, IsPiece name := by
  cases h with
  | mk quotes free filled => exact fun name mem => ⟨filled name mem, not_mem_of_mem_splitOn mem⟩

theorem Item.isPiece (h : Item item names) : ∀ name ∈ names, IsPiece name := by
  cases h with
  | name isName => simpa using isName.isPiece
  | bracket quoted => exact quoted.isPiece

theorem Later.isPiece (h : Later text names) : ∀ name ∈ names, IsPiece name := by
  induction h with
  | done => simp
  | name isName later ih => simpa using ⟨isName.isPiece, ih⟩
  | bracket quoted later ih =>
    exact fun name mem => (List.mem_append.mp mem).elim (quoted.isPiece name) (ih name)

theorem Items.isPiece (h : Items text names) : ∀ name ∈ names, IsPiece name := by
  cases h with
  | mk item later =>
    exact fun name mem => (List.mem_append.mp mem).elim (item.isPiece name) (later.isPiece name)

theorem Written.isPiece (h : Written text names) : ∀ name ∈ names, IsPiece name := by
  cases h with
  | root => simp
  | rootBracket items | rootDot items | bare _ items => exact items.isPiece

theorem Written.names_eq_nil_iff (h : Written text names) : names = [] ↔ text = Path.root := by
  constructor
  · intro empty
    cases h with
    | root => rfl
    | rootBracket items | rootDot items | bare _ items => exact absurd empty items.names_ne_nil
  · rintro rfl
    generalize same : Path.root = text at h
    cases h with
    | root => rfl
    | rootBracket items => exact absurd (List.append_right_eq_self.mp same.symm) items.ne_nil
    | rootDot items => exact absurd (List.append_right_eq_self.mp same.symm) (List.cons_ne_nil _ _)
    | bare noRoot => exact absurd ⟨[], by rw [← same]; rfl, .inl rfl⟩ noRoot

theorem mem_intercalate_iff {c d : Char} (other : c ≠ d) :
    c ∈ [d].intercalate names ↔ ∃ name ∈ names, c ∈ name := by
  induction names with
  | nil => simp
  | cons name names ih =>
    cases names with
    | nil => simp
    | cons next names =>
      rw [List.intercalate_cons_cons, List.mem_append, List.mem_append, ih]
      simp [other]

theorem intercalate_append (d : Char) (some_names : names ≠ []) (some_more : more ≠ []) :
    [d].intercalate (names ++ more) = [d].intercalate names ++ d :: [d].intercalate more := by
  induction names with
  | nil => exact absurd rfl some_names
  | cons name names ih =>
    cases names with
    | nil => simp [List.intercalate_cons_of_ne_nil some_more]
    | cons next names => simpa using ih (List.cons_ne_nil _ _)

/-- Whether a name stands in double quotes in a text. -/
def InDoubleQuotes (text name : List Char) : Prop :=
  ∃ before body after, text = before ++ '[' :: '"' :: (body ++ '"' :: ']' :: after) ∧
    '"' ∉ body ∧ name ∈ body.splitOn '.'

section

variable {name rest : List Char}

theorem InDoubleQuotes.append_left (h : InDoubleQuotes rest name) (text : List Char) :
    InDoubleQuotes (text ++ rest) name := by
  obtain ⟨before, body, after, rfl, free, mem⟩ := h
  exact ⟨text ++ before, body, after, by simp, free, mem⟩

theorem InDoubleQuotes.append_right (h : InDoubleQuotes text name) (rest : List Char) :
    InDoubleQuotes (text ++ rest) name := by
  obtain ⟨before, body, after, rfl, free, mem⟩ := h
  exact ⟨before, body, after ++ rest, by simp, free, mem⟩

theorem IsName.no_quote (h : IsName name) : '\'' ∉ name :=
  fun quote => (h.chars _ quote).1 (by simp)

theorem Bracket.inDoubleQuotes (h : Bracket text names) (mem : name ∈ names)
    (quote : '\'' ∈ name) : InDoubleQuotes text name := by
  cases h with
  | @mk mark body marks free filled =>
    have inside : '\'' ∈ body := by
      have whole : ['.'].intercalate (body.splitOn '.') = body := List.intercalate_splitOn '.'
      rw [← whole, mem_intercalate_iff (by decide)]
      exact ⟨name, mem, quote⟩
    obtain rfl : mark = '"' := marks.resolve_left fun single => free (single ▸ inside)
    exact ⟨[], body, [], by simp, free, mem⟩

theorem Item.inDoubleQuotes (h : Item text names) (mem : name ∈ names) (quote : '\'' ∈ name) :
    InDoubleQuotes text name := by
  cases h with
  | name isName =>
    obtain rfl := List.mem_singleton.mp mem
    exact absurd quote isName.no_quote
  | bracket quoted => exact quoted.inDoubleQuotes mem quote

theorem Later.inDoubleQuotes (h : Later text names) (mem : name ∈ names) (quote : '\'' ∈ name) :
    InDoubleQuotes text name := by
  induction h with
  | done => cases mem
  | @name bare rest names isName later ih =>
    rcases List.mem_cons.mp mem with rfl | mem
    · exact absurd quote isName.no_quote
    · exact (ih mem).append_left ('.' :: bare)
  | bracket quoted later ih =>
    rcases List.mem_append.mp mem with mem | mem
    · exact (quoted.inDoubleQuotes mem quote).append_right _
    · exact (ih mem).append_left _

theorem Items.inDoubleQuotes (h : Items text names) (mem : name ∈ names) (quote : '\'' ∈ name) :
    InDoubleQuotes text name := by
  cases h with
  | mk item later =>
    rcases List.mem_append.mp mem with mem | mem
    · exact (item.inDoubleQuotes mem quote).append_right _
    · exact (later.inDoubleQuotes mem quote).append_left _

theorem Written.inDoubleQuotes (h : Written text names) (mem : name ∈ names)
    (quote : '\'' ∈ name) : InDoubleQuotes text name := by
  cases h with
  | root => cases mem
  | rootBracket items => exact (items.inDoubleQuotes mem quote).append_left _
  | @rootDot text _ items =>
    exact ((items.inDoubleQuotes mem quote).append_left ['.']).append_left Path.root
  | bare _ items => exact items.inDoubleQuotes mem quote

end

def shown (names : List (List Char)) : List Char :=
  root ++ '[' :: '\'' :: (['.'].intercalate names ++ ['\'', ']'])

theorem written_shown (pieces : ∀ name ∈ names, IsPiece name) (some_names : names ≠ [])
    (unquoted : ∀ name ∈ names, '\'' ∉ name) : Written (shown names) names := by
  have split : (['.'].intercalate names).splitOn '.' = names :=
    List.splitOn_intercalate '.' (fun name mem => (pieces name mem).2) some_names
  have free : '\'' ∉ ['.'].intercalate names := by
    rw [mem_intercalate_iff (by decide)]
    rintro ⟨name, mem, quote⟩
    exact unquoted name mem quote
  have filled : ∀ name ∈ (['.'].intercalate names).splitOn '.', name ≠ [] := by
    rw [split]
    exact fun name mem => (pieces name mem).1
  have items := Items.mk (.bracket (.mk (.inl rfl) free filled)) .done
  rw [split, List.append_nil, List.append_nil] at items
  exact .rootBracket items rfl

/--
Where a bracket in single quotes opens a text, its names end at the first single quote. So they are
all the names between the outer quotes only if that quote is the last one.
-/
theorem unquoted_of_items
    (h : Items ('[' :: '\'' :: (['.'].intercalate names ++ ['\'', ']'])) names) :
    '\'' ∉ ['.'].intercalate names := by
  generalize same : '[' :: '\'' :: (['.'].intercalate names ++ ['\'', ']']) = text at h
  cases h with
  | @mk item rest here more isItem later =>
    cases isItem with
    | name isName =>
      cases item with
      | nil => exact absurd rfl isName.nonempty
      | cons c item =>
        obtain ⟨rfl, -⟩ := List.cons.inj same
        simpa using (isName.chars '[' (by simp)).1
    | bracket quoted =>
      cases quoted with
      | @mk mark body marks free filled =>
        simp only [List.cons_append, List.append_assoc, List.cons.injEq, true_and,
          List.nil_append] at same
        obtain ⟨rfl, same⟩ := same
        by_cases last : more = []
        · rwa [last, List.append_nil, List.intercalate_splitOn]
        · rw [intercalate_append _ (List.splitOn_ne_nil _ _) last, List.intercalate_splitOn,
            List.append_assoc, List.append_cancel_left_eq] at same
          simp at same

theorem written_shown_iff (pieces : ∀ name ∈ names, IsPiece name) :
    Written (shown names) names ↔ names ≠ [] ∧ ∀ name ∈ names, '\'' ∉ name := by
  constructor
  · intro h
    have nonempty : names ≠ [] := fun empty => by
      have same := h.names_eq_nil_iff.mp empty
      simp [shown] at same
    refine ⟨nonempty, fun name mem quote => ?_⟩
    have hasRoot : HasRoot (shown names) := ⟨_, rfl, .inr (.inl rfl)⟩
    have unquoted : '\'' ∉ ['.'].intercalate names := by
      generalize same : shown names = text at h hasRoot
      cases h with
      | root => exact absurd rfl nonempty
      | rootBracket items =>
        rw [← List.append_cancel_left same] at items
        exact unquoted_of_items items
      | rootDot items =>
        have := List.append_cancel_left same
        simp at this
      | bare noRoot => exact absurd hasRoot noRoot
    exact unquoted ((mem_intercalate_iff (by decide)).mpr ⟨name, mem, quote⟩)
  · rintro ⟨nonempty, unquoted⟩
    exact written_shown pieces nonempty unquoted

theorem toList_render (p : Path) :
    p.render.toList = shown (p.steps.map fun step => step.name.toList) := by
  simp [render, shown, root, Function.comp_def]

theorem trim_shown (names : List (List Char)) : Text.trim (shown names) = shown names := by
  have first : (shown names).head? = some 't' := rfl
  have last : (shown names).getLast? = some ']' := by simp [shown, List.getLast?_cons]
  refine (Text.trims_iff.mp ⟨[], [], by simp, by simp, ?_, ?_⟩).symm
  · rw [first]
    rintro _ ⟨⟩
    decide
  · rw [last]
    rintro _ ⟨⟩
    decide

theorem names_eq_of_denotes {steps : List Step} (h : List.Forall₂ Denotes names steps) :
    names = steps.map fun step => step.name.toList := by
  induction h with
  | nil => rfl
  | cons denotes _ ih => rw [List.map_cons, ← ih, denotes.name_eq, String.toList_ofList]

theorem read_render_iff (denotes : List.Forall₂ Denotes names p.steps) :
    read p.render = .ok p ↔ Written (shown names) names := by
  rw [read_eq_ok_iff, toList_render, ← names_eq_of_denotes denotes, trim_shown]
  constructor
  · rintro ⟨found, written, same⟩
    have found_eq : found = names :=
      (names_eq_of_denotes same).trans (names_eq_of_denotes denotes).symm
    rwa [found_eq] at written
  · exact fun written => ⟨names, written, denotes⟩

/--
The text in which a path is shown is read as this path exactly if the path has a step and none with
a single quote in its name. Otherwise the path was read from the root alone, or has a name in double
quotes with a single quote in it, and what is shown is refused or read as another path.
-/
theorem read_render_eq_self_iff {text : String} (accepted : read text = .ok p) :
    (read p.render = .ok p ↔ p.steps ≠ [] ∧ ∀ step ∈ p.steps, '\'' ∉ step.name.toList) ∧
      (¬(p.steps ≠ [] ∧ ∀ step ∈ p.steps, '\'' ∉ step.name.toList) →
        (Text.Trims text.toList root ∨ ∃ core, Text.Trims text.toList core ∧
          ∃ step ∈ p.steps, '\'' ∈ step.name.toList ∧ InDoubleQuotes core step.name.toList) ∧
        ((∃ flaw, read p.render = .error (.malformedPath p.render flaw)) ∨
          ∃ other ≠ p, read p.render = .ok other)) := by
  obtain ⟨names, written, denotes⟩ := read_eq_ok_iff.mp accepted
  have names_eq := names_eq_of_denotes denotes
  have faithful : read p.render = .ok p ↔
      p.steps ≠ [] ∧ ∀ step ∈ p.steps, '\'' ∉ step.name.toList := by
    rw [read_render_iff denotes, written_shown_iff written.isPiece, names_eq]
    simp
  refine ⟨faithful, fun gap => ⟨?_, ?_⟩⟩
  · by_cases empty : p.steps = []
    · have bare := written.names_eq_nil_iff.mp (by rw [names_eq, empty, List.map_nil])
      exact .inl (Text.trims_iff.mpr bare.symm)
    · obtain ⟨step, mem, quote⟩ : ∃ step ∈ p.steps, '\'' ∈ step.name.toList := by
        simpa [empty] using gap
      have named : step.name.toList ∈ names := names_eq ▸ List.mem_map_of_mem mem
      exact .inr ⟨_, Text.trims_trim _, step, mem, quote, written.inDoubleQuotes named quote⟩
  · cases again : read p.render with
    | ok other =>
      have differs : other ≠ p := by
        rintro rfl
        exact gap (faithful.mp again)
      exact .inr ⟨other, differs, rfl⟩
    | error e =>
      rw [← again]
      exact .inl (exists_flaw_of_read again)

theorem read_render_bracketed :
    read "[\"a']['b\"]" = .ok ⟨[.field "a']['b"]⟩ ∧
      (Path.mk [.field "a']['b"]).render = "this['a']['b']" ∧
      read "this['a']['b']" ≠ .ok ⟨[.field "a']['b"]⟩ ∧
      ∃ other ≠ Path.mk [.field "a']['b"], read "this['a']['b']" = .ok other := by
  have accepted : read "[\"a']['b\"]" = .ok ⟨[.field "a']['b"]⟩ := by decide +kernel
  have shown : (Path.mk [.field "a']['b"]).render = "this['a']['b']" := by decide +kernel
  have gap : ¬∀ step ∈ [Step.field "a']['b"], '\'' ∉ step.name.toList := by decide +kernel
  obtain ⟨faithful, others⟩ := read_render_eq_self_iff accepted
  rw [shown] at faithful others
  refine ⟨accepted, shown, fun same => gap (faithful.mp same).2, ?_⟩
  have again : read "this['a']['b']" = .ok ⟨[.field "a", .field "b"]⟩ := by decide +kernel
  rcases (others fun plain => gap plain.2).2 with ⟨flaw, refused⟩ | other
  · cases again.symm.trans refused
  · exact other

end HeapLens.Path
