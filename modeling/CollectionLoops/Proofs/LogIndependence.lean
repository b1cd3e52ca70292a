import CollectionLoops.Proofs.MethodLoops

/-!
The log is only added to. Code that does not look at it does the same whatever was logged before, and
what it logs comes after that. Main statement: with such a callback, a method makes the same calls, ends
alike and logs the same, however long the log was when its iterations began.
-/
namespace CollectionLoops

variable {σ : Type} {α : Type}

namespace World

/-- The world with records from earlier in front of those in its log. -/
def loggedAfter (w : World σ) (earlier : Array LogRecord) : World σ :=
  { w with log := earlier ++ w.log }

@[simp] theorem store_loggedAfter (w : World σ) (earlier : Array LogRecord) :
    (w.loggedAfter earlier).store = w.store := rfl

end World

namespace HostCall

/-- The call as it is made with records from earlier in the log. -/
def loggedAfter (x : HostCall σ) (earlier : Array LogRecord) : HostCall σ :=
  { x with before := x.before.loggedAfter earlier, after := x.after.loggedAfter earlier }

end HostCall

namespace Run

/-- Whether a computation takes no notice of what was logged before it. -/
def IgnoresLog (x : Run σ α) : Prop :=
  ∀ w earlier, x.runOn (w.loggedAfter earlier) = ((x.runOn w).1, (x.runOn w).2.loggedAfter earlier)

theorem ignoresLog_record (r : LogRecord) : (record r : Run σ Unit).IgnoresLog := by
  intro w earlier
  rw [runOn_record, runOn_record]
  simp only [World.loggedAfter, Array.append_push]

end Run

theorem Host.callOf_loggedAfter {h : Host σ} {r : FunctionRef} {b : Option Value}
    {args : List Value} (hcall : (h.call (.function r) b args).IgnoresLog) (w : World σ)
    (earlier : Array LogRecord) :
    h.callOf r b args (w.loggedAfter earlier) = (h.callOf r b args w).loggedAfter earlier := by
  simp only [Host.callOf, HostCall.loggedAfter, hcall w earlier]

namespace Method

variable {m : Method}

/-- The iterations of a method after a longer log. -/
theorem runs_loggedAfter {h : Host σ} {left : Nat} {i : UInt64} {f : Frame} {w w' : World σ}
    {calls : List (HostCall σ)} {o : Except Fault Flow} (run : m.step.Runs h left i f w calls o w')
    (hcallback : ∀ g args, (h.call f.callback (m.step.binding g) args).IgnoresLog)
    (earlier : Array LogRecord) :
    m.step.Runs h left i f (w.loggedAfter earlier) (calls.map (·.loggedAfter earlier)) o
      (w'.loggedAfter earlier) := by
  induction run with
  | finished i f w => exact .finished i f _
  | unready hargs => exact .unready hargs
  | uncallable hargs hnone => exact .uncallable hargs hnone
  | failed hargs hfunction hx hout =>
    rw [hfunction] at hcallback
    rw [hx] at hout ⊢
    exact .failed hargs hfunction (Host.callOf_loggedAfter (hcallback _ _) _ _).symm hout
  | stopped hargs hfunction hx hout hflow =>
    rw [hfunction] at hcallback
    rw [hx] at hout ⊢
    exact .stopped hargs hfunction (Host.callOf_loggedAfter (hcallback _ _) _ _).symm hout hflow
  | continued hargs hfunction hx hout hflow _ ih =>
    have hrest := ih (by rwa [(flow_eq_next hflow).2.callback])
    rw [hfunction] at hcallback
    rw [hx] at hout hrest ⊢
    exact .continued hargs hfunction (Host.callOf_loggedAfter (hcallback _ _) _ _).symm hout hflow
      hrest

/-- Every run after a longer log comes from one without the earlier records. -/
theorem exists_runs_of_loggedAfter {h : Host σ} {left : Nat} {i : UInt64} {f : Frame}
    {w w' : World σ} {earlier : Array LogRecord} {calls : List (HostCall σ)} {o : Except Fault Flow}
    (run : m.step.Runs h left i f (w.loggedAfter earlier) calls o w')
    (hcallback : ∀ g args, (h.call f.callback (m.step.binding g) args).IgnoresLog) :
    ∃ calls₀ w₀, m.step.Runs h left i f w calls₀ o w₀ ∧
      calls = calls₀.map (·.loggedAfter earlier) ∧ w' = w₀.loggedAfter earlier := by
  obtain ⟨calls₀, o₀, w₀, hrun, -⟩ := m.step.exists_runs h left i f w
  obtain ⟨hcalls, rfl, hw⟩ := (runs_loggedAfter hrun hcallback earlier).unique run
  exact ⟨calls₀, w₀, hrun, hcalls, hw⟩

end Method

/-- The record of the iterations is the last one before the first of them. -/
theorem CallLoop.entered_eq_loggedAfter (l : CallLoop) (s : Store) (f : Frame) (w : World σ) :
    l.entered s f w = World.loggedAfter ⟨s, #[], w.host⟩
      (w.log.push (.iterations l.name (l.enter s f).count (l.enter s f).invoker.isBound)) := by
  rw [entered, World.loggedAfter, Array.append_empty]

theorem CallLoop.leave_loggedAfter (l : CallLoop) (o : Except Fault Flow) (w : World σ)
    (earlier : Array LogRecord) : l.leave o (w.loggedAfter earlier) =
      ((l.leave o w).1, (l.leave o w).2.loggedAfter earlier) := by
  rcases o with _ | _ | _ <;> rfl

end CollectionLoops
