import HeapLens.Proofs.Query.Calls
import HeapLens.Proofs.Text.Numeral
import HeapLens.Proofs.Time.Epoch

set_option autoImplicit false

namespace HeapLens

open Calendar EpochStyle

/-- Whether the display text of a value is a decimal numeral of a number of milliseconds. -/
def QueryValue.DenotesMillis (session : Session) (v : QueryValue) (millis : Int64) : Prop :=
  ∃ text : String, v.displayText session = .ok (some text) ∧
    Text.Signed (Text.IsNumeral 10) text.toList millis.toInt

variable {l : Library} {session : Session} {v : QueryValue} {millis : Int64}

theorem Library.epoch_eq_render (denotes : v.DenotesMillis session millis) :
    l.epoch session v = (l.epochs.render? millis).getD l.epochs.wrongType := by
  obtain ⟨text, displayed, numeral⟩ := denotes
  simp only [epoch, displayed, Text.readInt64?_eq_some_iff.mpr numeral, Option.bind_some]

theorem Library.epoch_eq_wrongType (other : ∀ millis, ¬v.DenotesMillis session millis) :
    l.epoch session v = l.epochs.wrongType := by
  rw [epoch]
  split
  · rename_i text displayed
    have unread : Text.readInt64? text.toList = none :=
      Option.eq_none_iff_forall_ne_some.mpr fun millis found =>
        other millis ⟨text, displayed, Text.readInt64?_eq_some_iff.mp found⟩
    rw [unread, Option.bind_none, Option.getD_none]
  · rfl

/--
In the standard format every clock within the limit is accepted and no other. An accepted clock
shows the instants whose second is in the years from -9999 to 9999, each as the civil time of its
second. So it shows what the clock of universal time shows at an instant that is later by as much as
the clock is ahead. A call shows the instant that a value denotes, and has one text for all others.
-/
theorem epochs_follow_calendar {f : EpochFormat}
    (standard : f.pattern = EpochFormat.standard.pattern) :
    ((∃ style, ofFormat f = .ok style) ↔ (60 * f.offsetMinutes.toInt).natAbs ≤ offsetLimit) ∧
    ∀ style, ofFormat f = .ok style →
      (∀ millis, (style.render? millis).isSome ↔
        (Civil.newYear (-9999)).seconds ≤ secondOf f.offsetMinutes millis ∧
          secondOf f.offsetMinutes millis < (Civil.newYear 10000).seconds) ∧
      (∀ millis text, style.render? millis = some text ↔
        ∃ c : Civil, c.IsValid ∧ c.year.natAbs ≤ 9999 ∧
          c.seconds = secondOf f.offsetMinutes millis ∧ text = String.ofList c.text) ∧
      (∃ utc, ofFormat { f with offsetMinutes := 0 } = .ok utc ∧
        ∀ millis shifted : Int64, shifted.toInt = millis.toInt + 60000 * f.offsetMinutes.toInt →
          style.render? millis = utc.render? shifted) ∧
      (∀ millis millis' text text', style.render? millis = some text →
        style.render? millis' = some text' →
        (text = text' ↔ secondOf f.offsetMinutes millis = secondOf f.offsetMinutes millis')) ∧
      ∀ (l : Library) (session : Session) (v : QueryValue), l.epochs = style →
        (∀ millis text, v.DenotesMillis session millis → style.render? millis = some text →
          l.invoke session "convertEpoch" [v] = .ok (.text text)) ∧
        ((∀ millis text, v.DenotesMillis session millis → style.render? millis ≠ some text) →
          l.invoke session "convertEpoch" [v] = .ok (.text f.wrongType)) := by
  have accepted := ofFormat_standard standard
  refine ⟨?_, fun style ok => ?_⟩
  · rw [accepted]
    split_ifs with inside
    · exact ⟨fun _ => inside, fun _ => ⟨_, rfl⟩⟩
    · exact ⟨nofun, fun inside' => absurd inside' inside⟩
  obtain rfl : style = standardStyle f.offsetMinutes f.wrongType := by
    rw [accepted] at ok
    split_ifs at ok
    exact (Except.ok.inj ok).symm
  refine ⟨fun _ => isSome_render?_iff, fun _ _ => render?_eq_some_iff, ?_, ?_, ?_⟩
  · refine ⟨standardStyle 0 f.wrongType, ofFormat_standard standard, fun millis shifted same => ?_⟩
    refine render?_congr ?_
    rw [secondOf, secondOf, same, Int32.toInt_zero, Int.mul_zero, Int.add_zero]
  · intro millis millis' text text' shown shown'
    constructor
    · rintro rfl
      exact secondOf_eq_of_render? shown shown'
    · intro same
      rw [render?_congr same, shown'] at shown
      exact (Option.some.inj shown).symm
  · intro l session v style
    have call : l.invoke session "convertEpoch" [v] = .ok (.text (l.epoch session v)) :=
      Library.invoke_of_find? (f := .epoch) (by decide +kernel)
    rw [call]
    constructor
    · intro millis text denotes shown
      rw [Library.epoch_eq_render denotes, style, shown, Option.getD_some]
    · intro other
      by_cases denotes : ∃ millis, v.DenotesMillis session millis
      · obtain ⟨millis, denotes⟩ := denotes
        have unshown := Option.eq_none_iff_forall_ne_some.mpr fun text => other millis text denotes
        rw [Library.epoch_eq_render denotes, style, unshown]
        rfl
      · rw [Library.epoch_eq_wrongType (not_exists.mp denotes), style]
        rfl

/-- A clock five and a half hours ahead is already at the leap day, a millisecond before it. -/
theorem epochs_follow_calendar_leap_day :
    ∃ style, ofFormat ⟨EpochFormat.standard.pattern, 330, "no epoch"⟩ = .ok style ∧
      Library.invoke ⟨.builtin, style⟩ Session.empty "convertEpoch" [.text "951782399999"] =
        .ok (.text "29.02.2000 05:29:59") ∧
      style.render? (-1) = some "01.01.1970 05:29:59" := by
  obtain ⟨accepted, follow⟩ :=
    epochs_follow_calendar (f := ⟨EpochFormat.standard.pattern, 330, "no epoch"⟩) rfl
  obtain ⟨style, ok⟩ := accepted.mpr (by decide)
  obtain ⟨-, shows, -, -, calls⟩ := follow style ok
  have leap_day : style.render? 951782399999 = some "29.02.2000 05:29:59" :=
    (shows _ _).mpr ⟨⟨2000, 2, 29, 5, 29, 59⟩, by decide, by decide, by decide +kernel,
      by decide +kernel⟩
  have first_day : style.render? (-1) = some "01.01.1970 05:29:59" :=
    (shows _ _).mpr ⟨⟨1970, 1, 1, 5, 29, 59⟩, by decide, by decide, by decide +kernel,
      by decide +kernel⟩
  have denotes : (QueryValue.text "951782399999").DenotesMillis Session.empty 951782399999 :=
    ⟨_, rfl, Text.readInt64?_eq_some_iff.mp (by decide +kernel)⟩
  exact ⟨style, ok, (calls ⟨.builtin, style⟩ Session.empty _ rfl).1 _ _ denotes leap_day, first_day⟩

end HeapLens
