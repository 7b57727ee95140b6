import HeapLens.Proofs.Query.Library
import HeapLens.Proofs.Query.PathText

set_option autoImplicit false

namespace HeapLens.Path

variable {first second : List Char} {names more : List (List Char)}

theorem Items.later (h : Items second more) (noBracket : second.head? ≠ some '[') :
    Later ('.' :: second) more := by
  cases h with
  | mk item later =>
    cases item with
    | name isName => exact .name isName later
    | bracket quoted =>
      cases quoted
      exact absurd rfl noBracket

theorem Later.append (h : Later first names) (items : Items second more)
    (noBracket : second.head? ≠ some '[') : Later (first ++ '.' :: second) (names ++ more) := by
  induction h with
  | done => exact items.later noBracket
  | @name name rest names isName later ih =>
    rw [List.cons_append, List.append_assoc]
    exact .name isName ih
  | bracket quoted later ih =>
    rw [List.append_assoc, List.append_assoc]
    exact .bracket quoted ih

theorem Items.append (h : Items first names) (items : Items second more)
    (noBracket : second.head? ≠ some '[') : Items (first ++ '.' :: second) (names ++ more) := by
  cases h with
  | mk item later =>
    rw [List.append_assoc, List.append_assoc]
    exact .mk item (later.append items noBracket)

theorem hasRoot_of_append (h : HasRoot (first ++ '.' :: second)) : HasRoot first := by
  obtain ⟨after, eq, ends⟩ := h
  rcases List.append_eq_append_iff.mp eq with ⟨rest, root_eq, dot⟩ | ⟨rest, rfl, rfl⟩
  · cases rest with
    | nil => exact ⟨[], by simpa using root_eq.symm, .inl rfl⟩
    | cons c rest =>
      obtain ⟨rfl, -⟩ := List.cons.inj dot
      have inside : '.' ∈ root := by simp [root_eq]
      exact absurd inside (by decide)
  · refine ⟨rest, rfl, ?_⟩
    cases rest with
    | nil => exact .inl rfl
    | cons c rest => simpa using ends

theorem Written.append (h : Written first names) (items : Items second more)
    (noBracket : second.head? ≠ some '[') : Written (first ++ '.' :: second) (names ++ more) := by
  cases h with
  | root => exact .rootDot items
  | @rootBracket text _ before bracket =>
    rw [List.append_assoc]
    refine .rootBracket (before.append items noBracket) ?_
    rw [List.head?_append_of_ne_nil _ before.ne_nil, bracket]
  | rootDot before =>
    rw [List.append_assoc]
    exact .rootDot (before.append items noBracket)
  | bare noRoot before =>
    exact .bare (fun hasRoot => noRoot (hasRoot_of_append hasRoot))
      (before.append items noBracket)

theorem Written.ne_nil (h : Written first names) : first ≠ [] := by
  cases h with
  | root => simp [Path.root]
  | rootBracket | rootDot => simp [Path.root]
  | bare _ items => exact items.ne_nil

theorem Written.items (h : Written second more) (noRoot : ¬HasRoot second) : Items second more := by
  cases h with
  | root => exact absurd ⟨[], rfl, .inl rfl⟩ noRoot
  | rootBracket _ bracket => exact absurd ⟨_, rfl, .inr (.inl bracket)⟩ noRoot
  | rootDot => exact absurd ⟨_, rfl, .inr (.inr rfl)⟩ noRoot
  | bare _ items => exact items

theorem trim_append (joint : Char) (first_trimmed : Text.trim first = first)
    (second_trimmed : Text.trim second = second) (some_first : first ≠ [])
    (some_second : second ≠ []) :
    Text.trim (first ++ joint :: second) = first ++ joint :: second := by
  obtain ⟨-, -, -, -, leading, -⟩ := Text.trims_iff.mpr first_trimmed.symm
  obtain ⟨-, -, -, -, -, trailing⟩ := Text.trims_iff.mpr second_trimmed.symm
  refine (Text.trims_iff.mp ⟨[], [], by simp, by simp, ?_, ?_⟩).symm
  · rwa [List.head?_append_of_ne_nil _ some_first]
  · rwa [List.getLast?_append_of_ne_nil _ (List.cons_ne_nil _ _),
      List.getLast?_cons_of_ne_nil some_second]

theorem followAll_append (session : Session) (steps others : List Step) (v : QueryValue) :
    followAll session (steps ++ others) v =
      followAll session steps v >>= followAll session others := by
  induction steps generalizing v with
  | nil => cases others <;> cases v <;> rfl
  | cons step steps ih =>
    cases v with
    | null => cases others <;> rfl
    | handle x =>
      rw [List.cons_append, followAll, followAll]
      cases x.follow session step with
      | ok next => exact ih next
      | error e => rfl
    | _ => rfl

theorem followAll_cons_of_not_handle {session : Session} {step : Step} {rest : List Step}
    {v : QueryValue} (some_value : v ≠ .null) (no_handle : v.handle? = none) :
    followAll session (step :: rest) v = .error (.notNavigable step.name v.typeName) := by
  cases v with
  | null => exact absurd rfl some_value
  | handle x => cases no_handle
  | _ => rfl

theorem read_append {a b : String} {p q : Path} (first_trimmed : Text.trim a.toList = a.toList)
    (second_trimmed : Text.trim b.toList = b.toList) (read_first : read a = .ok p)
    (read_second : read b = .ok q) (noBracket : b.toList.head? ≠ some '[')
    (noRoot : ¬HasRoot b.toList) :
    read (a ++ "." ++ b) = .ok ⟨p.steps ++ q.steps⟩ ∧ q.steps ≠ [] := by
  obtain ⟨names, written, denotes⟩ := read_eq_ok_iff.mp read_first
  obtain ⟨more, written_more, denotes_more⟩ := read_eq_ok_iff.mp read_second
  rw [first_trimmed] at written
  rw [second_trimmed] at written_more
  have items := written_more.items noRoot
  have joined : (a ++ "." ++ b).toList = a.toList ++ '.' :: b.toList := by simp
  have trimmed := trim_append '.' first_trimmed second_trimmed written.ne_nil items.ne_nil
  constructor
  · refine read_eq_ok_iff.mpr ⟨names ++ more, ?_, List.rel_append denotes denotes_more⟩
    rw [joined, trimmed]
    exact written.append items noBracket
  · rintro empty
    rw [empty] at denotes_more
    cases denotes_more
    exact items.names_ne_nil rfl

/--
Two texts of paths, the second one beginning with a name, joined by a dot are the text of the path
with the steps of both. It fails as the first path fails, leads to nothing where the first one does,
goes on from a node as the second path does, and otherwise fails at the first step of the second.
-/
theorem resolve_append {a b : String} {p q : Path} (first_trimmed : Text.trim a.toList = a.toList)
    (second_trimmed : Text.trim b.toList = b.toList) (read_first : read a = .ok p)
    (read_second : read b = .ok q) (noBracket : b.toList.head? ≠ some '[')
    (noRoot : ¬HasRoot b.toList) :
    ∃ joined step rest, read (a ++ "." ++ b) = .ok joined ∧ joined.steps = p.steps ++ q.steps ∧
      q.steps = step :: rest ∧ ∀ (session : Session) (start : Handle),
        (∀ e, p.resolve session start = .error e → joined.resolve session start = .error e) ∧
        (p.resolve session start = .ok .null → joined.resolve session start = .ok .null) ∧
        (∀ x, p.resolve session start = .ok (.handle x) →
          joined.resolve session start = q.resolve session x) ∧
        ∀ v, p.resolve session start = .ok v → v ≠ .null → v.handle? = none →
          joined.resolve session start = .error (.notNavigable step.name v.typeName) := by
  obtain ⟨read_joined, some_steps⟩ :=
    read_append first_trimmed second_trimmed read_first read_second noBracket noRoot
  obtain ⟨step, rest, steps_eq⟩ := List.exists_cons_of_ne_nil some_steps
  refine ⟨_, step, rest, read_joined, rfl, steps_eq, fun session start => ?_⟩
  have onward : resolve session ⟨p.steps ++ q.steps⟩ start =
      p.resolve session start >>= followAll session q.steps := followAll_append _ _ _ _
  rw [onward]
  refine ⟨fun e failed => ?_, fun nothing => ?_, fun x found => ?_,
    fun v found some_value other => ?_⟩
  · rw [failed, error_bind]
  · rw [nothing, ok_bind, steps_eq, followAll]
  · rw [found, ok_bind, resolve]
  · rw [found, ok_bind, steps_eq, followAll_cons_of_not_handle some_value other]

/-- A name behind a bracket leads on from a node, and a name behind a text leads nowhere. -/
theorem resolve_append_knot :
    (∃ joined, read "this['to.to'].@className" = .ok joined ∧
        joined.resolve knotSession ⟨0, ⟨1⟩⟩ = .ok (.text "Part")) ∧
      ∃ joined, read "@className.name" = .ok joined ∧
        joined.resolve knotSession ⟨0, ⟨1⟩⟩ = .error (.notNavigable "name" "text") := by
  have to_node : read "this['to.to']" = .ok ⟨[.field "to", .field "to"]⟩ := by decide +kernel
  have to_text : read "@className" = .ok ⟨[.attribute "@className"]⟩ := by decide +kernel
  have name : read "name" = .ok ⟨[.field "name"]⟩ := by decide +kernel
  have noRoot {text : String} (other : text.toList.head? ≠ some 't') : ¬HasRoot text.toList := by
    rintro ⟨after, eq, -⟩
    exact other (by rw [eq]; rfl)
  obtain ⟨joined, step, rest, read_joined, -, -, leads⟩ := resolve_append (by decide +kernel)
    (by decide +kernel) to_node to_text (by decide +kernel) (noRoot (by decide +kernel))
  obtain ⟨joined', step', rest', read_joined', -, steps_eq, leads'⟩ := resolve_append
    (by decide +kernel) (by decide +kernel) to_text name (by decide +kernel)
    (noRoot (by decide +kernel))
  obtain ⟨rfl, -⟩ := List.cons.inj steps_eq
  refine ⟨⟨joined, read_joined, ?_⟩, joined', read_joined', ?_⟩
  · have found : resolve knotSession ⟨[.field "to", .field "to"]⟩ ⟨0, ⟨1⟩⟩ =
        .ok (.handle ⟨0, ⟨3⟩⟩) := by rfl
    rw [(leads knotSession ⟨0, ⟨1⟩⟩).2.2.1 _ found]
    rfl
  · have found : resolve knotSession ⟨[.attribute "@className"]⟩ ⟨0, ⟨1⟩⟩ =
        .ok (.text "Part") := by rfl
    exact (leads' knotSession ⟨0, ⟨1⟩⟩).2.2.2 _ found nofun rfl

end HeapLens.Path
