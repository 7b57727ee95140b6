import HeapLens.Json.Parts
import HeapLens.Proofs.Json.Scanning

set_option autoImplicit false

namespace HeapLens

namespace Json

inductive Plain : Nat → Json → Prop
  | null {depth : Nat} : Plain depth .null
  | bool {depth : Nat} (b : Bool) : Plain depth (.bool b)
  | number {depth : Nat} {n : Numeric} : n.IsInteger → Plain depth (.number n)
  | text {depth : Nat} (s : String) : Plain depth (.text s)
  | array {depth : Nat} {items : List Json} :
    (∀ item ∈ items, Plain depth item) → Plain (depth + 1) (.array items)
  | object {depth : Nat} {members : List (String × Json)} :
    (∀ member ∈ members, Plain depth member.2) → Plain (depth + 1) (.object members)

/-- Whether tokens build a document, where a value may stand and where the first item may. -/
structure Builds (tokens : List Token) (d : Document) : Prop where
  value : ∀ frames, tokens.foldlM Builder.step ⟨.value, frames⟩ = Builder.deliver d frames
  firstItem : ∀ frames, tokens.foldlM Builder.step ⟨.firstItem, frames⟩ = Builder.deliver d frames

def Spells (chars : List Char) (d : Document) : Prop :=
  ∃ tokens, Token.Reads chars tokens ∧ Builds tokens d

open Token (Reads EndsWord)

theorem Builds.of_cons {token : Token} {rest : List Token} {d : Document}
    (other : token ≠ .closeArray)
    (value : ∀ frames,
      (token :: rest).foldlM Builder.step ⟨.value, frames⟩ = Builder.deliver d frames) :
    Builds (token :: rest) d := by
  refine ⟨value, fun frames => ?_⟩
  have first : Builder.step ⟨.firstItem, frames⟩ token = Builder.step ⟨.value, frames⟩ token := by
    simp [Builder.step, other]
  rw [← value, List.foldlM_cons, List.foldlM_cons, first]

theorem Builds.single {token : Token} {d : Document} (other : token ≠ .closeArray)
    (value : ∀ frames, Builder.value frames token = Builder.deliver d frames) :
    Builds [token] d :=
  .of_cons other fun frames => by simp [Builder.step, value]

theorem Spells.word {chars : List Char} {token : Token} {d : Document} (nonempty : chars ≠ [])
    (isWord : ∀ c ∈ chars, Token.isWordChar c = true) (isToken : Token.ofWord? chars = some token)
    (other : token ≠ .closeArray)
    (value : ∀ frames, Builder.value frames token = Builder.deliver d frames) :
    Spells chars d :=
  ⟨[token], .word nonempty isWord isToken, .single other value⟩

theorem endsWord_items (items : List Json) (rest : List Char) :
    EndsWord (compactItems items ++ rest) := by
  rintro c mem
  cases items <;> cases mem <;> decide

theorem endsWord_members (members : List (String × Json)) (rest : List Char) :
    EndsWord (compactMembers members ++ rest) := by
  rintro c mem
  rcases members with _ | ⟨⟨name, item⟩, members⟩ <;> cases mem <;> decide

variable {depth : Nat}

theorem items_spelled {items : List Json}
    (spelled : ∀ item ∈ items, ∃ d, Spells (compactChars item) d ∧ d.value? depth = some item) :
    ∃ tokens ds, Reads (compactItems items) tokens ∧
      (∀ done frames, tokens.foldlM Builder.step ⟨.next, .array done :: frames⟩ =
        Builder.deliver (.array (done.reverse ++ ds)) frames) ∧
      Document.values? depth ds = some items := by
  induction items with
  | nil =>
    refine ⟨[.closeArray], [], .mark (by decide) rfl .nil, fun done frames => ?_, rfl⟩
    simp [Builder.step, Builder.next]
  | cons item items ih =>
    obtain ⟨d, ⟨tokens, reads, builds⟩, value⟩ := spelled item List.mem_cons_self
    obtain ⟨later, ds, later_reads, later_builds, values⟩ :=
      ih fun item mem => spelled item (List.mem_cons_of_mem _ mem)
    refine ⟨.comma :: (tokens ++ later), d :: ds, ?_, fun done frames => ?_, ?_⟩
    · exact .mark (by decide) rfl (reads.append (endsWord_items items) later_reads)
    · have comma : Builder.step ⟨.next, .array done :: frames⟩ .comma =
        some ⟨.value, .array done :: frames⟩ := rfl
      rw [List.foldlM_cons, comma, Option.bind_eq_bind, Option.bind_some, List.foldlM_append,
        builds.value]
      simpa [Builder.deliver] using later_builds (d :: done) frames
    · rw [Document.values?, value, values]

theorem Builds.member {tokens : List Token} {d : Document} (builds : Builds tokens d)
    (name : Option String) (stage : Stage) (stands : stage = .name ∨ stage = .firstName)
    (done : List (Option String × Document)) (frames : List Frame) :
    (.text name :: .colon :: tokens).foldlM Builder.step ⟨stage, .object done :: frames⟩ =
      some ⟨.next, .object ((name, d) :: done) :: frames⟩ := by
  have named : Builder.step ⟨stage, .object done :: frames⟩ (.text name) =
      some ⟨.colon, .member done name :: frames⟩ := by
    rcases stands with rfl | rfl <;> rfl
  have colon : Builder.step ⟨.colon, .member done name :: frames⟩ .colon =
    some ⟨.value, .member done name :: frames⟩ := rfl
  rw [List.foldlM_cons, named, Option.bind_eq_bind, Option.bind_some, List.foldlM_cons, colon,
    Option.bind_eq_bind, Option.bind_some, builds.value]
  rfl

theorem reads_member {chars : List Char} {tokens : List Token} (name : String)
    (reads : Reads chars tokens) :
    Reads (quote name ++ ':' :: chars) (.text (some name) :: .colon :: tokens) :=
  .quote name (.mark (by decide) rfl reads)

theorem members_spelled {members : List (String × Json)}
    (spelled : ∀ member ∈ members,
      ∃ d, Spells (compactChars member.2) d ∧ d.value? depth = some member.2) :
    ∃ tokens ds, Reads (compactMembers members) tokens ∧
      (∀ done frames, tokens.foldlM Builder.step ⟨.next, .object done :: frames⟩ =
        Builder.deliver (.object (done.reverse ++ ds)) frames) ∧
      Document.members? depth ds = some members := by
  induction members with
  | nil =>
    refine ⟨[.closeObject], [], .mark (by decide) rfl .nil, fun done frames => ?_, rfl⟩
    simp [Builder.step, Builder.next]
  | cons member members ih =>
    obtain ⟨name, item⟩ := member
    obtain ⟨d, ⟨tokens, reads, builds⟩, value⟩ := spelled (name, item) List.mem_cons_self
    obtain ⟨later, ds, later_reads, later_builds, values⟩ :=
      ih fun member mem => spelled member (List.mem_cons_of_mem _ mem)
    refine ⟨.comma :: ((.text (some name) :: .colon :: tokens) ++ later), (some name, d) :: ds, ?_,
      fun done frames => ?_, ?_⟩
    · have member := reads_member name (reads.append (endsWord_members members) later_reads)
      simpa [compactMembers] using Reads.mark (c := ',') (by decide) rfl member
    · have comma : Builder.step ⟨.next, .object done :: frames⟩ .comma =
        some ⟨.name, .object done :: frames⟩ := rfl
      rw [List.foldlM_cons, comma, Option.bind_eq_bind, Option.bind_some, List.foldlM_append,
        builds.member _ _ (.inl rfl)]
      simpa using later_builds ((some name, d) :: done) frames
    · simp only [Document.members?, value, values]

/-- What is written of a plain value is read as a document of that value. -/
theorem Plain.spelled {j : Json} (plain : j.Plain depth) :
    ∃ d, Spells (compactChars j) d ∧ d.value? depth = some j := by
  induction plain with
  | null =>
    have letters : "null".toList.all Token.isWordChar = true := by rfl
    exact ⟨.null, .word nofun (List.all_eq_true.mp letters) rfl nofun fun _ => rfl, rfl⟩
  | bool b =>
    refine ⟨.bool b, ?_, by rw [Document.value?]⟩
    have letters : "true".toList.all Token.isWordChar = true ∧
      "false".toList.all Token.isWordChar = true := ⟨by rfl, by rfl⟩
    cases b with
    | true => exact .word nofun (List.all_eq_true.mp letters.1) rfl nofun fun _ => rfl
    | false => exact .word nofun (List.all_eq_true.mp letters.2) rfl nofun fun _ => rfl
  | @number depth n integer =>
    refine ⟨.number (some n), ?_, by rw [Document.value?]; rfl⟩
    exact .word (Numeric.render_ne_nil integer) (Numeric.isWordChar_of_mem_render integer)
      (Token.ofWord?_render integer) nofun fun _ => rfl
  | text s =>
    refine ⟨.text (some s), ⟨[.text (some s)], ?_, .single nofun fun _ => rfl⟩,
      by rw [Document.value?]; rfl⟩
    have reads := Reads.nil.quote s
    rwa [List.append_nil] at reads
  | @array depth items plain spelled =>
    cases items with
    | nil =>
      refine ⟨.array [], ⟨[.openArray, .closeArray], ?_, .of_cons nofun fun frames => ?_⟩, rfl⟩
      · exact .mark (by decide) rfl (.mark (by decide) rfl .nil)
      · simp [Builder.step, Builder.value, Builder.next]
    | cons item items =>
      obtain ⟨d, ⟨tokens, reads, builds⟩, value⟩ := spelled item List.mem_cons_self
      obtain ⟨later, ds, later_reads, later_builds, values⟩ :=
        items_spelled fun item mem => spelled item (List.mem_cons_of_mem _ mem)
      refine ⟨.array (d :: ds),
        ⟨.openArray :: (tokens ++ later), ?_, .of_cons nofun fun frames => ?_⟩, ?_⟩
      · exact .mark (by decide) rfl (reads.append (endsWord_items items) later_reads)
      · have opened : Builder.step ⟨.value, frames⟩ .openArray =
          some ⟨.firstItem, .array [] :: frames⟩ := rfl
        rw [List.foldlM_cons, opened, Option.bind_eq_bind, Option.bind_some, List.foldlM_append,
          builds.firstItem]
        exact later_builds [d] frames
      · rw [Document.value?, Document.values?, value, values]
        rfl
  | @object depth members plain spelled =>
    cases members with
    | nil =>
      refine ⟨.object [], ⟨[.openObject, .closeObject], ?_, .of_cons nofun fun frames => ?_⟩, rfl⟩
      · exact .mark (by decide) rfl (.mark (by decide) rfl .nil)
      · simp [Builder.step, Builder.value, Builder.next]
    | cons member members =>
      obtain ⟨name, item⟩ := member
      obtain ⟨d, ⟨tokens, reads, builds⟩, value⟩ := spelled (name, item) List.mem_cons_self
      obtain ⟨later, ds, later_reads, later_builds, values⟩ :=
        members_spelled fun member mem => spelled member (List.mem_cons_of_mem _ mem)
      refine ⟨.object ((some name, d) :: ds),
        ⟨.openObject :: ((.text (some name) :: .colon :: tokens) ++ later), ?_,
          .of_cons nofun fun frames => ?_⟩, ?_⟩
      · have member := reads_member name (reads.append (endsWord_members members) later_reads)
        simpa [compactChars] using Reads.mark (c := '\x7b') (by decide) rfl member
      · have opened : Builder.step ⟨.value, frames⟩ .openObject =
          some ⟨.firstName, .object [] :: frames⟩ := rfl
        rw [List.foldlM_cons, opened, Option.bind_eq_bind, Option.bind_some, List.foldlM_append,
          builds.member _ _ (.inr rfl)]
        exact later_builds [(some name, d)] frames
      · simp only [Document.value?, Document.members?, value, values, Option.map_some]

theorem read_compact {j : Json} (plain : j.Plain depth) :
    ∃ d, Document.read? j.compact = some d ∧ d.value? depth = some j := by
  obtain ⟨d, ⟨tokens, reads, builds⟩, value⟩ := plain.spelled
  refine ⟨d, ?_, value⟩
  rw [Document.read?, compact, String.toList_ofList, Token.scan_of_reads reads, Option.bind_some,
    Document.ofTokens?, Builder.start, builds.value]
  rfl

theorem isInteger_int (n : Int64) : ∃ m : Numeric, int n = .number m ∧ m.IsInteger := by
  unfold int
  by_cases negative : n < 0
  · exact ⟨_, if_pos negative, negative⟩
  · exact ⟨_, if_neg negative, trivial⟩

theorem Plain.int (n : Int64) : (int n).Plain depth := by
  obtain ⟨m, eq, integer⟩ := isInteger_int n
  rw [eq]
  exact .number integer

theorem int?_int (n : Int64) : (int n).int? = some n.toInt := by
  unfold int
  by_cases negative : n < 0
  · rw [if_pos negative]
    rfl
  · rw [if_neg negative]
    have natural : 0 ≤ n.toInt := Int64.le_iff_toInt_le.mp (Int64.not_lt.mp negative)
    have same : (n.toUInt64.toNat : Int) = n.toInt := by
      change (n.toBitVec.toNat : Int) = n.toBitVec.toInt
      change 0 ≤ n.toBitVec.toInt at natural
      rw [BitVec.toInt_eq_toNat_cond] at *
      omega
    exact congrArg some same

theorem intIn?_int {low high : Int} {n : Int64} (above : low ≤ n.toInt) (below : n.toInt ≤ high) :
    (int n).intIn? low high = some n.toInt := by
  simp [intIn?, int?_int, above, below]

end Json

namespace Document

theorem pickMembers_of_members? {names : List String} {depth : Nat}
    {ds : List (Option String × Document)} {members : List (String × Json)}
    (read : members? depth ds = some members) (named : ∀ member ∈ members, member.1 ∈ names) :
    pickMembers names depth ds = some members := by
  induction ds generalizing members with
  | nil => exact read
  | cons d ds ih =>
    obtain ⟨_ | name, d⟩ := d
    · simp [members?] at read
    · cases value : d.value? depth with
      | none => simp [members?, value] at read
      | some item =>
        cases rest : members? depth ds with
        | none => simp [members?, value, rest] at read
        | some items =>
          obtain rfl : (name, item) :: items = members := by
            simpa [members?, value, rest] using read
          have here : name ∈ names := named _ List.mem_cons_self
          have later := ih rest fun member mem => named member (List.mem_cons_of_mem _ mem)
          simp [pickMembers, here, value, later]

theorem pick_of_value? {names : List String} {d : Document} {members : List (String × Json)}
    (read : d.value? depthLimit = some (.object members))
    (named : ∀ member ∈ members, member.1 ∈ names) : d.pick names = some (.object members) := by
  cases d with
  | object ds =>
    obtain ⟨items, items_read, eq⟩ := Option.map_eq_some_iff.mp read
    cases eq
    exact congrArg (Option.map Json.object) (pickMembers_of_members? items_read named)
  | _ => exact read

end Document

end HeapLens
