/-
The cancel flag of a run.

A `request_cancel` holds a copy of the row and assigns one column of it.  Where the copy
has the flag set already the column is not written, so that the commit sets the flag
needs that a copy knows of no flag that is not stored: nobody takes the flag back, and a
run that was deleted does not come back.  The worker reads the flag and never writes it.
-/
import SpurApi.Proofs.LifeCycle

namespace SpurApi

open Transition

section

variable {μ : Type} {env : Env μ} {s₀ s s' : State μ} {a : Action} {run : Uuid}
  {tr : List (Entry (State μ) Action)} {row row' : SimulationRunRow}

/-- The cancel flag of the run is committed. -/
def State.Flagged (s : State μ) (run : Uuid) : Prop :=
  ∃ row, (s.slice run).row = some row ∧ row.cancelRequested = true

/-- **The flag is never taken back**, as long as the run is there. -/
theorem State.Flagged.step (h : s.Flagged run) (hok : RunsOk env.spur s)
    (hstep : s.step env a = some s') (hrow' : (s'.slice run).row = some row') :
    row'.cancelRequested = true := by
  obtain ⟨row, hrow, hflag⟩ := h
  cases run_change hok hstep hrow' with
  | inserted _ _ _ _ _ _ hblank =>
      rw [hblank] at hrow
      simp [RunSlice.blank] at hrow
  | edited _ hold _ _ hedit =>
      rw [hrow, Option.some.injEq] at hold
      subst hold
      exact hedit.cancelRequested hflag
  | delivered _ _ _ hslice =>
      rw [hslice, hrow, Option.some.injEq] at hrow'
      exact hrow' ▸ hflag
  | worked _ hold _ _ hpok hmove =>
      rw [hrow, Option.some.injEq] at hold
      subst hold
      exact (hmove.write hpok.copies hrow').cancelRequested.trans hflag

/-- The flag comes from a cancel request that was committed. -/
theorem exists_cancelCommits (h₀ : s₀.Initial) (h : Exec (system env) s₀ tr s) :
    s.Flagged run → ∃ e ∈ tr, CancelCommits e.pre e.act e.post run := by
  induction h with
  | nil =>
      rintro ⟨row, hrow, -⟩
      exact (h₀.not_row hrow).elim
  | @snoc tr s s' a h hstep ih =>
      rintro ⟨row', hrow', hflag'⟩
      have hearlier : s.Flagged run → ∃ e ∈ tr ++ [⟨s, a, s'⟩],
          CancelCommits e.pre e.act e.post run := by
        intro hflagged
        obtain ⟨e, he, hcommits⟩ := ih hflagged
        exact ⟨e, List.mem_append_left _ he, hcommits⟩
      cases run_change (RunsOk.exec h₀ h) hstep hrow' with
      | inserted _ _ _ _ _ hnew =>
          obtain ⟨_, _, _, _, rfl⟩ := hnew
          simp [newRun] at hflag'
      | edited _ hold _ _ hedit =>
          rcases hedit.flag with hkept | ⟨-, hcommits⟩
          · exact hearlier ⟨_, hold, hkept ▸ hflag'⟩
          · exact ⟨⟨s, a, s'⟩, List.mem_append_right tr (List.mem_singleton.mpr rfl), hcommits⟩
      | delivered _ _ _ hslice => exact hearlier ⟨row', hslice ▸ hrow', hflag'⟩
      | worked _ hold _ _ hpok hmove =>
          exact hearlier ⟨_, hold, (hmove.write hpok.copies hrow').cancelRequested ▸ hflag'⟩

/-! ### The copy of a request -/

/-- The copy that a request holds of a run knows of no flag that is not stored. -/
def KnowsFlag (s : State μ) : Prop :=
  ∀ r run edit copy, s.requests r = some (.editRun run edit (.loaded copy)) →
    NotPending s run ∧ (copy.cancelRequested = true → ∀ row, (s.slice run).row = some row →
      row.cancelRequested = true)

private theorem KnowsFlag.step (h : KnowsFlag s) (hok : RunsOk env.spur s)
    (hstep : s.step env a = some s') : KnowsFlag s' := by
  intro r run edit copy hreq'
  cases request_step hstep hreq' with
  | arrived _ _ hreceived => simp [Request.isReceived] at hreceived
  | kept _ hreq =>
      obtain ⟨hnot, hflag⟩ := h r run edit copy hreq
      refine ⟨hnot.step hstep, fun hcopy row' hrow' => ?_⟩
      cases run_change hok hstep hrow' with
      | inserted _ hins hsub hid =>
          exact absurd (List.mem_map.mpr ⟨_, hsub, hid⟩) (hnot.2 _ _ hins)
      | edited _ hold _ _ hedit => exact hedit.cancelRequested (hflag hcopy _ hold)
      | delivered _ _ _ hslice => exact hflag hcopy row' (hslice ▸ hrow')
      | worked _ hold _ _ hpok hmove =>
          exact (hmove.write hpok.copies hrow').cancelRequested.trans (hflag hcopy _ hold)
  | stepped ha hpre hqstep =>
      obtain ⟨point, rfl, hmove⟩ := editMove_of_request hqstep
      generalize hb : s'.backend = b' at hmove
      cases hmove with
      | loaded hrow =>
          refine ⟨(notPending_of_row hok.apart hrow).step hstep, fun hcopy row' hrow' => ?_⟩
          rw [State.slice, hb, hrow, Option.some.injEq] at hrow'
          exact hrow' ▸ hcopy

theorem knowsFlag_of_exec (h₀ : s₀.Initial) (h : Exec (system env) s₀ tr s) : KnowsFlag s := by
  induction h with
  | nil =>
      intro r run edit copy hreq
      simp [h₀.requests] at hreq
  | snoc h hstep ih => exact ih.step (RunsOk.exec h₀ h) hstep

/-- **A cancel request that commits sets the flag**, unless the run is gone. -/
theorem flagged_of_cancelCommits (hknows : KnowsFlag s) (hstep : s.step env a = some s')
    (hcommits : CancelCommits s a s' run) (hrow' : (s'.slice run).row = some row') :
    row'.cancelRequested = true := by
  obtain ⟨r, io, copy, rfl, hreq, hreq'⟩ := hcommits
  obtain ⟨-, hflag⟩ := hknows r run .cancel copy hreq
  cases request_step hstep hreq' with
  | kept hact => exact absurd rfl (hact io)
  | arrived ha => simp at ha
  | @stepped io' q _ hpre hqstep =>
      rw [hreq, Option.some.injEq] at hpre
      subst hpre
      obtain ⟨point, heq, hmove⟩ := editMove_of_request hqstep
      cases heq
      generalize hb : s'.backend = b' at hmove
      cases hmove with
      | @committed _ stored _ hupdate =>
          have hstored : stored = some row' := by
            rw [State.slice, hb] at hrow'
            simpa [Backend.setRun, Db.setRun] using hrow'
          cases hrow : s.backend.db.runs run with
          | none =>
              rw [hrow, updateRun] at hupdate
              split at hupdate <;> simp [hstored] at hupdate
          | some row =>
              rw [hrow, updateRun_some, hstored, RunEdit.apply,
                SimulationRunRow.flush_cancel] at hupdate
              simp only [Except.ok.injEq, Option.some.injEq] at hupdate
              rw [← hupdate]
              -- a copy that has the flag leaves the column, where it is set already
              cases hcopy : copy.cancelRequested with
              | true => simpa using hflag hcopy row hrow
              | false => rfl

end

end SpurApi
