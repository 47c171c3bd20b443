import Mathlib.Data.List.Induction
import PeripheralHids.Hog.Funs

namespace peripheral_hids.hog

abbrev uint16_t := BitVec 16

def BT_GATT_CCC_NOTIFY : uint16_t := 0x0001

def input_ccc_changed (h : Hog) (value : uint16_t) : Hog :=
  { h with simulate_input := if value = BT_GATT_CCC_NOTIFY then 1 else 0 }

/-- What reaches the service: a report from a thread, or a new value of the
client's configuration. -/
inductive Event where
  | set (kb_report : hids_report_keyboard)
  | ccc_changed (value : uint16_t)
  deriving DecidableEq, Repr

def serve (h : Hog) : Event → Hog
  | .set kb_report => hog_set_keyboard_input h kb_report
  | .ccc_changed value => input_ccc_changed h value

/-- The report that the host saw last. -/
def Hog.host_view (h : Hog) : hids_report_keyboard :=
  h.notified.getLast?.getD .zero

/-- The reports of a sequence of events, each with whether notifications were
enabled when it was handed over. -/
def handed_reports : Bool → List Event → List (hids_report_keyboard × Bool)
  | _, [] => []
  | enabled, .set kb_report :: events => (kb_report, enabled) :: handed_reports enabled events
  | _, .ccc_changed value :: events => handed_reports (value = BT_GATT_CCC_NOTIFY) events

/-- The last of some reports, all zero if there is none. -/
def last_report (reports : List (hids_report_keyboard × Bool)) : hids_report_keyboard :=
  (reports.map Prod.fst).getLast?.getD .zero

/-- Whether reports are passed on. -/
def Hog.enabled (h : Hog) : Bool := h.simulate_input ≠ 0

theorem hog_set_keyboard_input_notified (h : Hog) (report : hids_report_keyboard) :
    (hog_set_keyboard_input h report).notified = if h.enabled then h.notified ++ [report] else h.notified := by
  unfold hog_set_keyboard_input trigger_report_notification Hog.enabled
  by_cases hinput : h.simulate_input = 0
  · rw [if_pos hinput, decide_eq_false (not_not.mpr hinput)]
    rfl
  · rw [if_neg hinput, decide_eq_true hinput]
    rfl

theorem hog_set_keyboard_input_enabled (h : Hog) (report : hids_report_keyboard) :
    (hog_set_keyboard_input h report).enabled = h.enabled := by
  unfold hog_set_keyboard_input trigger_report_notification Hog.enabled
  split <;> rfl

theorem input_ccc_changed_enabled (h : Hog) (value : uint16_t) :
    (input_ccc_changed h value).enabled = decide (value = BT_GATT_CCC_NOTIFY) := by
  unfold input_ccc_changed Hog.enabled
  by_cases hvalue : value = BT_GATT_CCC_NOTIFY
  · simp only [hvalue]
    rfl
  · simp only [hvalue]
    rfl

/-- The service keeps every report, and passes on those that come while
notifications are enabled. -/
theorem foldl_serve (events : List Event) (h : Hog) :
    (events.foldl serve h).handed = h.handed ++ (handed_reports h.enabled events).map Prod.fst ∧
      (events.foldl serve h).notified =
        h.notified ++ ((handed_reports h.enabled events).filter Prod.snd).map Prod.fst := by
  induction events generalizing h with
  | nil => exact ⟨(List.append_nil _).symm, (List.append_nil _).symm⟩
  | cons event events ih =>
    obtain ⟨hhanded, hnotified⟩ := ih (serve h event)
    rw [List.foldl_cons, hhanded, hnotified]
    cases event with
    | set report =>
      simp only [serve, hog_set_keyboard_input_handed, hog_set_keyboard_input_notified,
        hog_set_keyboard_input_enabled, handed_reports, List.map_cons, List.append_assoc,
        List.singleton_append, true_and]
      cases h.enabled with
      | false => rfl
      | true => exact List.append_assoc _ _ _
    | ccc_changed value =>
      simp only [serve, input_ccc_changed_enabled, handed_reports]
      exact ⟨rfl, rfl⟩

theorem serve_input_keyboard (events : List Event) (h : Hog)
    (hcurrent : h.input_keyboard = h.handed.getLast?.getD .zero) :
    (events.foldl serve h).input_keyboard = (events.foldl serve h).handed.getLast?.getD .zero := by
  induction events generalizing h with
  | nil => exact hcurrent
  | cons event events ih =>
    refine ih (serve h event) ?_
    cases event with
    | set report => simp [serve]
    | ccc_changed value => exact hcurrent

theorem last_report_filter {reports : List (hids_report_keyboard × Bool)}
    (henabled : ∀ last ∈ reports.getLast?, last.2 = true) :
    last_report (reports.filter Prod.snd) = last_report reports := by
  induction reports using List.reverseRecOn with
  | nil => rfl
  | append_singleton reports last _ =>
    have hlast : last.2 = true := henabled last (by simp)
    simp [last_report, List.filter_append, hlast]

/-- The host's view is the last report that was handed over while notifications
were enabled. It is current if no later report was handed over, and otherwise
exactly when the last one happens to be equal. -/
theorem host_view_iff (events : List Event) :
    (events.foldl serve .initial).host_view = last_report ((handed_reports false events).filter Prod.snd) ∧
      ((events.foldl serve .initial).host_view = (events.foldl serve .initial).input_keyboard ↔
        last_report ((handed_reports false events).filter Prod.snd) = last_report (handed_reports false events)) ∧
      ((∀ last ∈ (handed_reports false events).getLast?, last.2 = true) →
        (events.foldl serve .initial).host_view = (events.foldl serve .initial).input_keyboard) := by
  obtain ⟨hhanded, hnotified⟩ := foldl_serve events .initial
  have hview : (events.foldl serve .initial).host_view =
      last_report ((handed_reports false events).filter Prod.snd) := by
    rw [Hog.host_view, hnotified]
    rfl
  have hinput : (events.foldl serve .initial).input_keyboard = last_report (handed_reports false events) := by
    rw [serve_input_keyboard events .initial rfl, hhanded]
    rfl
  rw [hview, hinput]
  exact ⟨rfl, Iff.rfl, last_report_filter⟩

/-- `A` is pressed before the host subscribes: it is not shown as down. -/
theorem press_before_subscription :
    ∃ h, [.set { modifier := 0, reserved := 0, keycode := #v[0, 0, 0, 0, 0, KEY_A] },
        .ccc_changed BT_GATT_CCC_NOTIFY].foldl serve .initial = h ∧
      h.simulate_input = 1 ∧ h.host_view ≠ h.input_keyboard :=
  ⟨_, rfl, rfl, by decide⟩

end peripheral_hids.hog
