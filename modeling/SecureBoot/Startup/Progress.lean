import Mathlib.Algebra.Order.BigOperators.Group.Finset
import SecureBoot.Startup.Entry

/-!
# All harts arrive

The wake-up protocol on fair schedules: no hart is left behind.
-/

namespace SecureBoot.Startup

/-! ## No hart is left behind -/

/-- The events of a machine with `n` harts. -/
def Concerns (n : Nat) : Event → Prop
  | .host => True
  | .exec k => k < n
  | .interrupt k => k < n

def AllMain (n : Nat) (s : State) : Prop := ∀ k < n, (s.harts k).pc = BOOTROM_MAIN

/-- The first hart that is not there yet. -/
structure First (n : Nat) (s : State) (k : Nat) : Prop where
  lt : k < n
  out : (s.harts k).pc ≠ BOOTROM_MAIN
  before : ∀ i < k, (s.harts i).pc = BOOTROM_MAIN

/-- The event that brings it on. -/
inductive Helps (n : Nat) (s : State) : Event → Prop
  | host (before : s.raised = false) : Helps n s .host
  | exec (k : Nat) (raised : s.raised = true) (first : First n s k)
      (awake : (s.harts k).pc ≠ 22 ∧ (s.harts k).pc ≠ 23) : Helps n s (.exec k)
  | interrupt (k : Nat) (raised : s.raised = true) (first : First n s k)
      (asleep : (s.harts k).pc = 22 ∨ (s.harts k).pc = 23) : Helps n s (.interrupt k)

def rank (n : Nat) (s : State) : Nat :=
  (if s.raised then 0 else 1) + ∑ k ∈ Finset.range n, toGo n (s.msip 0) (s.harts k)

theorem toGo_busy (n : Nat) {busy busy' : Bool} (h : Hart) (hle : busy' = true → busy = true) :
    toGo n busy' h ≤ toGo n busy h := by
  by_cases hpc : h.pc = 25
  · rw [toGo_poll n _ hpc, toGo_poll n _ hpc]
    by_cases hbusy : busy = true
    · rw [if_pos hbusy]
      split <;> omega
    · rw [if_neg hbusy, if_neg fun h' => hbusy (hle h')]
  · apply le_of_eq
    unfold toGo
    split <;> first | rfl | omega

theorem Taken.toGo_le {n k : Nat} {s t : State} (h : Taken n s k t) (i : Nat) :
    toGo n (t.msip 0) (t.harts i) ≤ toGo n (s.msip 0) (s.harts i) := by
  by_cases hik : i = k
  · rw [hik]
    rcases h.lower with ⟨_, hle⟩ | hlt
    · exact hle
    · exact hlt.le
  · rw [h.others i hik]
    exact toGo_busy n _ h.busy

theorem Taken.rank_le {n k : Nat} {s t : State} (h : Taken n s k t) : rank n t ≤ rank n s := by
  rw [rank, rank, h.raised]
  exact Nat.add_le_add_left (Finset.sum_le_sum fun i _ => h.toGo_le i) _

theorem Taken.rank_lt {n k : Nat} {s t : State} (h : Taken n s k t) (hk : k < n)
    (hlt : toGo n (t.msip 0) (t.harts k) < toGo n (s.msip 0) (s.harts k)) :
    rank n t < rank n s := by
  rw [rank, rank, h.raised]
  exact Nat.add_lt_add_left (Finset.sum_lt_sum (fun i _ => h.toGo_le i)
    ⟨k, Finset.mem_range.mpr hk, hlt⟩) _

theorem rank_interrupt {n k : Nat} {s t : State} (hinv : Inv n s)
    (h : step n s (.interrupt k) = some t) : rank n t < rank n s := by
  rcases taken_of_interrupt hinv h with ⟨hk, _, htaken, hlt⟩
  exact htaken.rank_lt hk ((toGo_busy n _ htaken.busy).trans_lt hlt)

theorem rank_host {n : Nat} {s t : State} (hpos : 1 ≤ n) (hinv : Inv n s)
    (h : step n s .host = some t) : rank n t < rank n s := by
  rcases hinv.host_step hpos h with ⟨hraised, rfl, _⟩
  have hsum : ∑ k ∈ Finset.range n, toGo n ((s.writeMsip n 0 1).msip 0) (s.harts k) =
      ∑ k ∈ Finset.range n, toGo n (s.msip 0) (s.harts k) := by
    refine Finset.sum_congr rfl fun k hk => ?_
    have hat := (hinv.asleep hraised (Finset.mem_range.mp hk)).pc
    rw [toGo_hang n _ hat.1 hat.2, toGo_hang n _ hat.1 hat.2]
  show 0 + ∑ k ∈ Finset.range n, toGo n ((s.writeMsip n 0 1).msip 0)
    ((s.writeMsip n 0 1).harts k) < rank n s
  rw [writeMsip_harts, hsum, rank, if_neg (by rw [hraised]; exact Bool.noConfusion)]
  omega

/-- The first hart that is out does not wait for hart 0. -/
theorem First.waits {n k : Nat} {s : State} (hpos : 1 ≤ n) (hinv : Inv n s)
    (hfirst : First n s k) (hwait : Waits s k) :
    (s.harts k).pc = 22 ∨ (s.harts k).pc = 23 := by
  rcases hwait with h | h | ⟨hbusy, hpc⟩
  · exact .inl h
  · exact .inr h
  · have hmain : BOOTROM_MAIN = 34 := rfl
    have hother : k ≠ 0 := by
      intro hk0
      cases hinv.outline k hfirst.lt with
      | sleeping hat =>
          have := hat.pc
          omega
      | awake raised off hat => cases hat <;> omega
    have hquiet := hinv.quiet 0 hpos (.inr (.inr (hfirst.before 0 (by omega))))
    rw [hbusy] at hquiet
    cases hquiet

theorem Taken.rank_lt_of_first {n k : Nat} {s t : State} (h : Taken n s k t) (hpos : 1 ≤ n)
    (hinv : Inv n s) (hfirst : First n s k)
    (hawake : (s.harts k).pc ≠ 22 ∧ (s.harts k).pc ≠ 23) : rank n t < rank n s := by
  rcases h.lower with ⟨hwait, _⟩ | hlt
  · exact absurd (hfirst.waits hpos hinv hwait) (by omega)
  · exact h.rank_lt hfirst.lt hlt

/-- The interrupt is there for a hart that waits for it, once the harts before it are through. -/
theorem First.interrupted {n k : Nat} {s : State} (hpos : 1 ≤ n) (hinv : Inv n s)
    (hraised : s.raised = true) (hfirst : First n s k)
    (hasleep : (s.harts k).pc = 22 ∨ (s.harts k).pc = 23) : s.interrupted k = true := by
  have hmain : BOOTROM_MAIN = 34 := rfl
  have hcleared : ¬ Cleared (s.harts k) := not_cleared rfl (by omega)
  have hmsip : s.msip k = true := by
    by_cases hk0 : k = 0
    · rw [hk0] at hcleared ⊢
      exact (hinv.host hraised).resolve_right hcleared
    · have hzero := (hinv.main hpos (hfirst.before 0 (by omega))).2.2.2
      exact (hzero.1 rfl k (by omega) hfirst.lt hfirst.lt).resolve_right hcleared
  cases hinv.outline k hfirst.lt with
  | awake raised off hat => cases hat <;> omega
  | sleeping hat =>
      cases hat with
      | wait pc mtvec mie on => rw [State.interrupted, mie, on, hmsip]; rfl
      | _ => omega

theorem helps_lower {n : Nat} {s : State} {e : Event} (hpos : 1 ≤ n) (hn : n ≤ 4095)
    (hinv : Inv n s) (h : Helps n s e) : ∃ t, step n s e = some t ∧ rank n t < rank n s := by
  cases h with
  | host before =>
      have hstep : step n s .host = some { s.writeMsip n 0 1 with raised := true } := by
        rw [step, before]
        rfl
      exact ⟨_, hstep, rank_host hpos hinv hstep⟩
  | exec k raised first awake =>
      rcases hinv.goes hn first.lt first.out with ⟨t, hstep, htaken⟩
      exact ⟨t, hstep, htaken.rank_lt_of_first hpos hinv first awake⟩
  | interrupt k raised first asleep =>
      have hstep : step n s (.interrupt k) = some (s.setHart k (s.harts k).trap) := by
        rw [step, if_pos ⟨first.lt, first.interrupted hpos hinv raised asleep⟩]
      exact ⟨_, hstep, rank_interrupt hinv hstep⟩

/-- `wfi_loop` without an interrupt. -/
theorem step_wfi {n k : Nat} {s t : State} (h : step n s (.exec k) = some t)
    (hasleep : (s.harts k).pc = 22 ∨ (s.harts k).pc = 23) :
    (t.harts k).pc = 22 ∨ (t.harts k).pc = 23 := by
  rw [step] at h
  split at h
  · rcases hasleep with pc | pc
    · have hi : text[22]? = some .wfi := rfl
      rw [pc, hi] at h
      cases h
      right
      rw [setHart_self, Hart.next, pc]
    · have hi : text[23]? = some (.j WFI_LOOP) := rfl
      rw [pc, hi] at h
      cases h
      left
      rw [setHart_self]
      rfl
  · cases h

theorem First.mono {n i k : Nat} {s t : State} (hfirst : First n s k)
    (hothers : ∀ j, j ≠ i → t.harts j = s.harts j) (hi : (s.harts i).pc ≠ BOOTROM_MAIN)
    (hout : (t.harts k).pc ≠ BOOTROM_MAIN) : First n t k where
  lt := hfirst.lt
  out := hout
  before j hj := by
    have hji : j ≠ i := fun h => hi (h ▸ hfirst.before j hj)
    rw [hothers j hji]
    exact hfirst.before j hj

theorem helps_keep {n : Nat} {s t : State} {e e' : Event} (hpos : 1 ≤ n) (hn : n ≤ 4095)
    (hinv : Inv n s) (h : Helps n s e) (hstep : step n s e' = some t) :
    rank n t < rank n s ∨ rank n t = rank n s ∧ Helps n t e := by
  have hmain : BOOTROM_MAIN = 34 := rfl
  cases e' with
  | host => exact .inl (rank_host hpos hinv hstep)
  | interrupt i => exact .inl (rank_interrupt hinv hstep)
  | exec i =>
      rcases taken_of_exec hn hinv hstep with ⟨hi, hout, htaken⟩
      by_cases hlt : rank n t < rank n s
      · exact .inl hlt
      · refine .inr ⟨Nat.le_antisymm htaken.rank_le (by omega), ?_⟩
        cases h with
        | host before => exact .host (htaken.raised.trans before)
        | exec k raised first awake =>
            have hik : k ≠ i := by
              intro hik
              subst hik
              exact hlt (htaken.rank_lt_of_first hpos hinv first awake)
            have hsame := htaken.others k hik
            exact .exec k (htaken.raised.trans raised)
              (first.mono htaken.others hout (hsame ▸ first.out)) (hsame ▸ awake)
        | interrupt k raised first asleep =>
            have hasleep : (t.harts k).pc = 22 ∨ (t.harts k).pc = 23 := by
              by_cases hik : k = i
              · subst hik
                exact step_wfi hstep asleep
              · rwa [htaken.others k hik]
            exact .interrupt k (htaken.raised.trans raised)
              (first.mono htaken.others hout (by omega)) hasleep

theorem exists_helps {n : Nat} {s : State} (h : ¬ AllMain n s) :
    ∃ e, Concerns n e ∧ Helps n s e := by
  by_cases hraised : s.raised = true
  · have hex : ∃ k, k < n ∧ (s.harts k).pc ≠ BOOTROM_MAIN := by
      by_contra hno
      refine h fun k hk => ?_
      by_contra hpc
      exact hno ⟨k, hk, hpc⟩
    have hfirst : First n s (Nat.find hex) := by
      refine ⟨(Nat.find_spec hex).1, (Nat.find_spec hex).2, fun i hi => ?_⟩
      by_contra hpc
      exact Nat.find_min hex hi ⟨hi.trans (Nat.find_spec hex).1, hpc⟩
    by_cases hasleep : (s.harts (Nat.find hex)).pc = 22 ∨ (s.harts (Nat.find hex)).pc = 23
    · exact ⟨.interrupt _, hfirst.lt, .interrupt _ hraised hfirst hasleep⟩
    · exact ⟨.exec _, hfirst.lt, .exec _ hraised hfirst (by omega)⟩
  · exact ⟨.host, trivial, .host (by simpa using hraised)⟩

theorem AllMain.step {n : Nat} {s : State} {e : Event} (hpos : 1 ≤ n) (hn : n ≤ 4095)
    (hinv : Inv n s) (h : AllMain n s) : step n s e = none := by
  have hmain : BOOTROM_MAIN = 34 := rfl
  cases hstep : Startup.step n s e with
  | none => rfl
  | some t =>
      exfalso
      cases e with
      | host =>
          have hraised := (hinv.main hpos (h 0 hpos)).1
          rw [(hinv.host_step hpos hstep).1] at hraised
          cases hraised
      | exec k =>
          rcases taken_of_exec hn hinv hstep with ⟨hk, hout, _⟩
          exact hout (h k hk)
      | interrupt k =>
          rcases taken_of_interrupt hinv hstep with ⟨hk, hwait, _⟩
          rw [h k hk] at hwait
          omega

/-- Wherever the harts are, on every schedule that puts no hart, no interrupt and not the host
off forever all of them are in `bootrom_main` at some time, and from then on. -/
theorem bootrom_main_reached {n : Nat} (hpos : 1 ≤ n) (hn : n ≤ 4095) {s t : State}
    {events : List Event} (hs : PowerOn s) (hrun : Runs n s events t) {schedule : Nat → Event}
    (hfair : Transition.Fair (Concerns n) schedule) :
    ∃ m, ∀ m', m ≤ m' → AllMain n (Transition.follow (step n) t schedule m') := by
  have hinv := inv_runs hpos hn hrun (inv_powerOn hs)
  have hI : ∀ s e t, Inv n s → step n s e = some t → Inv n t := fun _ _ _ => inv_step hpos hn
  rcases Transition.eventually_of_rank hI (fun s _ h => exists_helps h)
    (fun s e hinv h => helps_lower hpos hn hinv h)
    (fun s e e' t hinv h hstep => helps_keep hpos hn hinv h hstep) hinv hfair with ⟨m, hm⟩
  refine ⟨m, fun m' hm' => ?_⟩
  induction hm' with
  | refl => exact hm
  | step _ ih =>
      rw [Transition.follow, ih.step hpos hn (Transition.follow_invariant hI hinv schedule _)]
      exact ih

/-- Two harts, the interrupt of each and the host in turn. -/
def inTurn (m : Nat) : Event :=
  match m % 5 with
  | 0 => .host
  | 1 => .exec 0
  | 2 => .exec 1
  | 3 => .interrupt 0
  | _ => .interrupt 1

theorem inTurn_fair : Transition.Fair (Concerns 2) inTurn := by
  intro e he m
  have hturn : ∀ r < 5, (m + (5 - m % 5 + r)) % 5 = r := by omega
  have htwo : ∀ k, k < 2 → k = 0 ∨ k = 1 := by omega
  cases e with
  | host => exact ⟨5 - m % 5 + 0, by rw [inTurn, hturn 0 (by omega)]; rfl⟩
  | exec k =>
      rcases htwo k he with rfl | rfl
      · exact ⟨5 - m % 5 + 1, by rw [inTurn, hturn 1 (by omega)]; rfl⟩
      · exact ⟨5 - m % 5 + 2, by rw [inTurn, hturn 2 (by omega)]; rfl⟩
  | interrupt k =>
      rcases htwo k he with rfl | rfl
      · exact ⟨5 - m % 5 + 3, by rw [inTurn, hturn 3 (by omega)]; rfl⟩
      · exact ⟨5 - m % 5 + 4, by rw [inTurn, hturn 4 (by omega)]; rfl⟩

theorem bootrom_main_reached_inTurn :
    ∃ m, ∀ m', m ≤ m' → AllMain 2 (Transition.follow (step 2) cold inTurn m') :=
  bootrom_main_reached (by decide) (by decide) cold_powerOn (.nil cold) inTurn_fair

end SecureBoot.Startup
