import Sv6x66.Ayla.SyncCall
import Sv6x66.Lib.Fair

/-! The end of a synchronous call. Its callback has as many steps of the main loop in front
of it as there are calls before it, three for each, and then the caller is woken. -/
namespace Sv6x66.Ayla.SyncCall
open Sv6x66.Lib Function

variable {τ ν α : Type*} [DecidableEq τ] [DecidableEq ν] {s s' : Ada τ ν α} {nodes : List ν}

def OfLoop : Event τ ν α → Prop
  | .unlink | .run | .signal => True
  | _ => False

/-- The caller whose step it is. -/
def Event.caller : Event τ ν α → Option τ
  | .prepare t _ _ | .link t | .wake t | .finish t => some t
  | _ => none

/-- The loop has something to do. -/
def LoopReady (s : Ada τ ν α) : Prop := s.loop ≠ .idle ∨ s.syncCbQueue ≠ none

def CallerReady (t : τ) (s : Ada τ ν α) : Prop :=
  ∃ call cb node, s.caller t = .waiting call cb node ∧ s.sem node = some 1 ∨
    s.caller t = .woken call cb node

theorem caller_of_other {event : Event τ ν α} {t : τ} (hby : event.caller ≠ some t)
    (hstep : step s event = some s') : s'.caller t = s.caller t := by
  have hne {t' : τ} (ht' : event.caller = some t') : t ≠ t' := by
    rintro rfl
    exact hby ht'
  cases event with
  | prepare t' cb node =>
    dsimp only [step] at hstep
    split at hstep <;> cases hstep
    exact update_of_ne (hne rfl) ..
  | link t' =>
    dsimp only [step] at hstep
    split at hstep <;> cases hstep
    exact update_of_ne (hne rfl) ..
  | wake t' =>
    dsimp only [step] at hstep
    split at hstep
    · split at hstep <;> cases hstep
      exact update_of_ne (hne rfl) ..
    · cases hstep
  | finish t' =>
    dsimp only [step] at hstep
    split at hstep <;> cases hstep
    exact update_of_ne (hne rfl) ..
  | reuse node next cb =>
    cases hstep
    rfl
  | unlink =>
    dsimp only [step] at hstep
    split at hstep <;> cases hstep
    rfl
  | run =>
    dsimp only [step] at hstep
    split at hstep <;> cases hstep
    rfl
  | signal =>
    dsimp only [step] at hstep
    split at hstep
    · split at hstep <;> cases hstep <;> rfl
    · cases hstep

/-- Others leave the semaphore of a call alone, and what the loop has done. -/
theorem sem_of_other {event : Event τ ν α} {t : τ} {node : ν} (h : Inv s nodes)
    (hapart : Apart s event) (hby : event.caller ≠ some t) (hloop : ¬ OfLoop event)
    (hnode : frame (s.caller t) = some node) (hstep : step s event = some s') :
    s'.sem node = s.sem node ∧ s'.loop = s.loop ∧ s'.ran = s.ran := by
  have hne {t' : τ} (ht' : event.caller = some t') : t ≠ t' := by
    rintro rfl
    exact hby ht'
  have hown {t' : τ} {node' : ν} (ht' : event.caller = some t')
      (hnode' : frame (s.caller t') = some node') : node ≠ node' := by
    rintro rfl
    exact hne ht' (h.frames t t' node hnode hnode')
  cases event with
  | prepare t' cb node' =>
    dsimp only [step] at hstep
    split at hstep <;> cases hstep
    refine ⟨update_of_ne ?_ .., rfl, rfl⟩
    rintro rfl
    exact hapart t hnode
  | link t' =>
    dsimp only [step] at hstep
    split at hstep <;> cases hstep
    obtain ⟨-, hsem, hkept, hran, -⟩ := linkNode_keeps s ‹ν›
    exact ⟨congrFun hsem node, hkept, hran⟩
  | wake t' =>
    dsimp only [step] at hstep
    split at hstep
    · rename_i call cb node' hcaller
      split at hstep <;> cases hstep
      exact ⟨update_of_ne (hown rfl (hcaller ▸ rfl)) .., rfl, rfl⟩
    · cases hstep
  | finish t' =>
    dsimp only [step] at hstep
    split at hstep
    · rename_i call cb node' hcaller
      cases hstep
      exact ⟨update_of_ne (hown rfl (hcaller ▸ rfl)) .., rfl, rfl⟩
    · cases hstep
  | reuse node' next cb =>
    cases hstep
    refine ⟨update_of_ne ?_ .., rfl, rfl⟩
    rintro rfl
    exact hapart t hnode
  | unlink => exact absurd trivial hloop
  | run => exact absurd trivial hloop
  | signal => exact absurd trivial hloop

/-- How far the loop is from the end of its turn. -/
def phase : LoopPc ν → Nat
  | .unlinked _ => 0
  | .idle => 1
  | .ran _ => 2

/-- The steps of the loop until a call is served: three for each callback in front of it. -/
def rank (call : Nat) (s : Ada τ ν α) : Nat := 3 * (call + 1 - s.ran.length) + phase s.loop

section

variable {t : τ} {call : Nat} {cb : α} {node : ν}

omit [DecidableEq τ] [DecidableEq ν] in
/-- A call whose callback the loop has in front of it was not served yet. -/
theorem Inv.le_call (h : Inv s nodes) (hcaller : s.caller t = .waiting call cb node)
    (hmem : node ∈ (unrun s.loop).toList ++ nodes) : s.ran.length ≤ call := by
  obtain ⟨i, hi⟩ := List.mem_iff_getElem?.mp hmem
  obtain ⟨t', ht', -⟩ := h.queued i node hi
  have hnode : frame (s.caller t) = some node := by
    rw [hcaller]
    rfl
  cases h.frames t t' node hnode (ht' ▸ rfl)
  cases hcaller.symm.trans ht'
  exact Nat.le_add_right ..

/-- A step of the loop brings a call nearer to being signalled, or signals it. -/
theorem loop_step {event : Event τ ν α} (h : Inv s nodes)
    (hcaller : s.caller t = .waiting call cb node) (hsem : s.sem node = some 0)
    (hloop : OfLoop event) (hstep : step s event = some s') :
    s'.sem node = some 1 ∨ s'.sem node = some 0 ∧ rank call s' < rank call s := by
  have hwaits : node ∈ (held s.loop).toList ++ nodes := by
    refine (h.waiting t call cb node hcaller).resolve_right fun hserved => ?_
    rw [hsem] at hserved
    cases hserved.1
  cases event with
  | unlink =>
    dsimp only [step] at hstep
    split at hstep
    · rename_i first hidle hhead
      cases hstep
      refine .inr ⟨hsem, ?_⟩
      simp [rank, phase, hidle]
    · cases hstep
  | run =>
    dsimp only [step] at hstep
    split at hstep
    · rename_i first hunlinked
      cases hstep
      rw [hunlinked] at hwaits
      have hle := h.le_call hcaller (by rw [hunlinked]; exact hwaits)
      refine .inr ⟨hsem, ?_⟩
      simp only [rank, phase, hunlinked, List.length_append, List.length_singleton]
      omega
    · cases hstep
  | signal =>
    dsimp only [step] at hstep
    split at hstep
    · rename_i first hran
      obtain ⟨hzero, -⟩ := h.signal hran
      rw [hzero] at hstep
      cases hstep
      by_cases hnode : node = first
      · subst hnode
        exact .inl (update_self ..)
      · refine .inr ⟨(update_of_ne hnode ..).trans hsem, ?_⟩
        simp [rank, phase, hran]
    · cases hstep
  | prepare => cases hloop
  | link => cases hloop
  | wake => cases hloop
  | finish => cases hloop
  | reuse => cases hloop

/-- A caller that waits for a signal can only go on when it comes. -/
theorem waits_on {event : Event τ ν α} (hcaller : s.caller t = .waiting call cb node)
    (hsem : s.sem node = some 0) (hstep : step s event = some s') : event.caller ≠ some t := by
  intro hby
  cases event with
  | prepare t' =>
    cases hby
    simp [step, hcaller] at hstep
  | link t' =>
    cases hby
    simp [step, hcaller] at hstep
  | wake t' =>
    cases hby
    simp [step, hcaller, hsem] at hstep
  | finish t' =>
    cases hby
    simp [step, hcaller] at hstep
  | reuse => cases hby
  | unlink => cases hby
  | run => cases hby
  | signal => cases hby

variable (t call cb node) in
theorem served_progress : InfRun.Progress (step (τ := τ) (ν := ν) (α := α)) Apart OfLoop Good
    (fun s => s.caller t = .waiting call cb node ∧ s.sem node = some 0)
    (fun s => s.caller t = .waiting call cb node ∧ s.sem node = some 1) (· < ·) (rank call) := by
  have hhelps : ∀ (s : Ada τ ν α) event s', Good s →
      s.caller t = .waiting call cb node ∧ s.sem node = some 0 → step s event = some s' →
      OfLoop event → (s'.caller t = .waiting call cb node ∧ s'.sem node = some 1) ∨
        (s'.caller t = .waiting call cb node ∧ s'.sem node = some 0) ∧
          rank call s' < rank call s := by
    rintro s event s' ⟨⟨nodes, h⟩, -⟩ ⟨hcaller, hsem⟩ hstep hloop
    have hkept := (caller_of_other (waits_on hcaller hsem hstep) hstep).trans hcaller
    rcases loop_step h hcaller hsem hloop hstep with hone | ⟨hzero, hlt⟩
    · exact .inl ⟨hkept, hone⟩
    · exact .inr ⟨⟨hkept, hzero⟩, hlt⟩
  constructor
  · rintro s event s' hgood ⟨hcaller, hsem⟩ hapart hstep
    by_cases hloop : OfLoop event
    · exact (hhelps s event s' hgood ⟨hcaller, hsem⟩ hstep hloop).imp_right fun h =>
        ⟨h.1, .inr h.2⟩
    · obtain ⟨⟨nodes, h⟩, -⟩ := hgood
      have hby := waits_on hcaller hsem hstep
      have hnode : frame (s.caller t) = some node := by
        rw [hcaller]
        rfl
      obtain ⟨hsame, hloop', hran⟩ := sem_of_other h hapart hby hloop hnode hstep
      refine .inr ⟨⟨(caller_of_other hby hstep).trans hcaller, hsame.trans hsem⟩, .inl ?_⟩
      rw [rank, rank, hloop', hran]
  · exact fun s event s' hgood hwaits _ hstep hloop => hhelps s event s' hgood hwaits hstep hloop

/-- The loop leaves a semaphore that is signalled alone. -/
theorem signalled_stays {event : Event τ ν α} (h : Inv s nodes) (hsem : s.sem node = some 1)
    (hloop : OfLoop event) (hstep : step s event = some s') : s'.sem node = some 1 := by
  cases event with
  | unlink =>
    dsimp only [step] at hstep
    split at hstep <;> cases hstep
    exact hsem
  | run =>
    dsimp only [step] at hstep
    split at hstep <;> cases hstep
    exact hsem
  | signal =>
    dsimp only [step] at hstep
    split at hstep
    · rename_i first hran
      obtain ⟨hzero, -⟩ := h.signal hran
      rw [hzero] at hstep
      cases hstep
      refine (update_of_ne ?_ ..).trans hsem
      rintro rfl
      rw [hzero] at hsem
      cases hsem
    · cases hstep
  | prepare => cases hloop
  | link => cases hloop
  | wake => cases hloop
  | finish => cases hloop
  | reuse => cases hloop

variable (t call cb node) in
theorem woken_progress : InfRun.Progress (step (τ := τ) (ν := ν) (α := α)) Apart
    (fun event => event.caller = some t) Good
    (fun s => s.caller t = .waiting call cb node ∧ s.sem node = some 1)
    (fun s => s.caller t = .woken call cb node) (· < ·) (fun _ => 0) := by
  have hhelps : ∀ (s : Ada τ ν α) event s', s.caller t = .waiting call cb node →
      s.sem node = some 1 → step s event = some s' → event.caller = some t →
      s'.caller t = .woken call cb node := by
    intro s event s' hcaller hsem hstep hby
    cases event with
    | wake t' =>
      cases hby
      simp only [step, hcaller, hsem, Option.some.injEq] at hstep
      subst hstep
      exact update_self ..
    | prepare t' =>
      cases hby
      simp [step, hcaller] at hstep
    | link t' =>
      cases hby
      simp [step, hcaller] at hstep
    | finish t' =>
      cases hby
      simp [step, hcaller] at hstep
    | reuse => cases hby
    | unlink => cases hby
    | run => cases hby
    | signal => cases hby
  constructor
  · rintro s event s' ⟨⟨nodes, h⟩, -⟩ ⟨hcaller, hsem⟩ hapart hstep
    by_cases hby : event.caller = some t
    · exact .inl (hhelps s event s' hcaller hsem hstep hby)
    · refine .inr ⟨⟨(caller_of_other hby hstep).trans hcaller, ?_⟩, .inl rfl⟩
      by_cases hloop : OfLoop event
      · exact signalled_stays h hsem hloop hstep
      · exact (sem_of_other h hapart hby hloop (hcaller ▸ rfl) hstep).1.trans hsem
  · intro s event s' _ hwaits _ hstep hby
    exact .inl (hhelps s event s' hwaits.1 hwaits.2 hstep hby)

variable (t call cb) in
theorem returned_progress (node : ν) : InfRun.Progress (step (τ := τ) (ν := ν) (α := α)) Apart
    (fun event => event.caller = some t) Good (fun s => s.caller t = .woken call cb node)
    (fun s => (call, cb) ∈ s.returned) (· < ·) (fun _ => 0) := by
  have hhelps : ∀ (s : Ada τ ν α) event s', s.caller t = .woken call cb node →
      step s event = some s' → event.caller = some t → (call, cb) ∈ s'.returned := by
    intro s event s' hcaller hstep hby
    cases event with
    | finish t' =>
      cases hby
      simp only [step, hcaller, Option.some.injEq] at hstep
      subst hstep
      exact List.mem_append_right _ (List.mem_singleton_self _)
    | prepare t' =>
      cases hby
      simp [step, hcaller] at hstep
    | link t' =>
      cases hby
      simp [step, hcaller] at hstep
    | wake t' =>
      cases hby
      simp [step, hcaller] at hstep
    | reuse => cases hby
    | unlink => cases hby
    | run => cases hby
    | signal => cases hby
  constructor
  · intro s event s' _ hcaller _ hstep
    by_cases hby : event.caller = some t
    · exact .inl (hhelps s event s' hcaller hstep hby)
    · exact .inr ⟨(caller_of_other hby hstep).trans hcaller, .inl rfl⟩
  · exact fun s event s' _ hcaller _ hstep hby => .inl (hhelps s event s' hcaller hstep hby)

omit [DecidableEq τ] [DecidableEq ν] in
theorem Inv.loopReady (h : Inv s nodes) (hcaller : s.caller t = .waiting call cb node)
    (hsem : s.sem node = some 0) : LoopReady s := by
  have hmem : node ∈ (held s.loop).toList ++ nodes := by
    refine (h.waiting t call cb node hcaller).resolve_right fun hserved => ?_
    rw [hsem] at hserved
    cases hserved.1
  cases hloop : s.loop with
  | idle =>
    rw [hloop] at hmem
    refine .inr fun hnone => ?_
    rw [h.queue.eq_nil_iff_head.mp hnone] at hmem
    cases hmem
  | unlinked first =>
    refine .inl ?_
    rw [hloop]
    rintro ⟨⟩
  | ran first =>
    refine .inl ?_
    rw [hloop]
    rintro ⟨⟩

end

/-- If the loop and the caller go on whenever they can, a call that is in the queue is
served and returns. -/
theorem call_returns {next : ν → Option ν} {cbs : ν → α}
    (run : InfRun step Apart (alAdaInit next cbs : Ada τ ν α)) (t : τ)
    (hloop : run.Fair LoopReady OfLoop)
    (hcaller : run.Fair (CallerReady t) fun event => event.caller = some t) (call : Nat) (cb : α)
    (node : ν) : run.LeadsTo (fun s => s.caller t = .waiting call cb node)
      fun s => (call, cb) ∈ s.returned := by
  have hgood : ∀ n, Good (run.state n) := fun n =>
    (run.run_prefix n).invariant (good_alAdaInit next cbs) fun _ _ _ h hapart hstep =>
      good_step h hapart hstep
  have hserved := (served_progress t call cb node).leadsTo wellFounded_lt hgood hloop
    fun s hs hwaits => by
      obtain ⟨⟨nodes, h⟩, -⟩ := hs
      exact h.loopReady hwaits.1 hwaits.2
  have hwoken := (woken_progress t call cb node).leadsTo wellFounded_lt hgood hcaller
    fun s _ hwaits => ⟨call, cb, node, .inl hwaits⟩
  have hreturned := (returned_progress t call cb node).leadsTo wellFounded_lt hgood hcaller
    fun s _ hs => ⟨call, cb, node, .inr hs⟩
  have hafter := hwoken.trans hreturned
  apply ((hserved.trans hafter).or hafter).mono
  intro n hwaiting
  obtain ⟨⟨nodes, h⟩, -⟩ := hgood n
  rcases h.waiting t call cb node hwaiting with hmem | ⟨hone, -⟩
  · obtain ⟨t', call', ht', hzero⟩ := h.caller_of_mem hmem
    exact .inl ⟨hwaiting, hzero⟩
  · exact .inr ⟨hwaiting, hone⟩

/-! ### Two calls that return -/

theorem reuse_self {node : ν} (hsem : s.sem node = none) :
    step s (.reuse node (s.next node) (s.cb node)) = some s := by
  simp only [step, update_eq_self]
  rw [← hsem, update_eq_self]

/-- The two calls of `twoCallers` are linked. -/
def linking : List (Event Bool Bool Nat) := twoCallers.take 4

def serving : List (Event Bool Bool Nat) := twoCallers.drop 4

/-- Neither the loop nor a caller has anything to do. -/
def quiet (s : Ada Bool Bool Nat) : Prop :=
  s.loop = .idle ∧ s.syncCbQueue = none ∧ (∀ t, s.caller t = .idle) ∧ s.sem true = none

/-- The run of the callers and the loop, which ends where none has anything to do. -/
theorem exists_twoCalls :
    ∃ run : InfRun step Apart (alAdaInit (fun _ => none) fun _ => 0 : Ada Bool Bool Nat),
      (run.state 4).caller false = .waiting 1 5 false ∧ (run.state 4).caller true =
        .waiting 0 7 true ∧ ∀ n ≥ 15, quiet (run.state n) := by
  obtain ⟨t, s, ht, hs, hfirst, hsecond, hquiet⟩ : ∃ t s,
      exec (guarded step fun s event => decide (Apart s event))
        (alAdaInit (fun _ => none) fun _ => 0) linking = some t ∧
      exec (guarded step fun s event => decide (Apart s event)) t serving = some s ∧
      t.caller false = .waiting 1 5 false ∧ t.caller true = .waiting 0 7 true ∧ quiet s := by
    refine ⟨_, _, rfl, rfl, rfl, rfl, rfl, rfl, ?_, rfl⟩
    intro t
    cases t <;> rfl
  have hallowed : decide (Apart s (.reuse true (s.next true) (s.cb true))) = true := by
    refine decide_eq_true fun t ht => ?_
    rw [hquiet.2.2.1 t] at ht
    cases ht
  obtain ⟨run, hthrough, hstay⟩ :=
    InfRun.exists_of_exec_through ht hs hallowed (reuse_self hquiet.2.2.2)
  have hapart : ∀ n, Apart (run.state n) (run.event n) := fun n => of_decide_eq_true (run.allows n)
  refine ⟨⟨run.state, run.event, run.starts, hapart, run.steps⟩, ?_, ?_, fun n hn => ?_⟩
  · exact (congrArg (fun s : Ada Bool Bool Nat => s.caller false) hthrough).trans hfirst
  · exact (congrArg (fun s : Ada Bool Bool Nat => s.caller true) hthrough).trans hsecond
  · exact (hstay n hn).symm ▸ hquiet

/-- Both calls return, each with its own callback. -/
theorem call_returns_twoCalls :
    ∃ run : InfRun step Apart (alAdaInit (fun _ => none) fun _ => 0 : Ada Bool Bool Nat),
      ((run.state 4).caller false = .waiting 1 5 false ∧
        ∃ m ≥ 4, (1, 5) ∈ (run.state m).returned) ∧
      (run.state 4).caller true = .waiting 0 7 true ∧
        ∃ m ≥ 4, (0, 7) ∈ (run.state m).returned := by
  obtain ⟨run, hfirst, hsecond, hend⟩ := exists_twoCalls
  have hloop : run.Fair LoopReady OfLoop := by
    intro n
    obtain ⟨hidle, hnone, -⟩ := hend (max n 15) (le_max_right ..)
    refine ⟨max n 15, le_max_left .., ?_⟩
    rintro (hbusy | hqueued)
    · exact absurd hidle hbusy
    · exact absurd hnone hqueued
  have hcaller (t : Bool) : run.Fair (CallerReady t) fun event => event.caller = some t := by
    intro n
    obtain ⟨-, -, hidle, -⟩ := hend (max n 15) (le_max_right ..)
    refine ⟨max n 15, le_max_left .., ?_⟩
    rintro ⟨call, cb, node, ⟨hpc, -⟩ | hpc⟩ <;> cases (hidle t).symm.trans hpc
  exact ⟨run, ⟨hfirst, call_returns run false hloop (hcaller false) 1 5 false 4 hfirst⟩, hsecond,
    call_returns run true hloop (hcaller true) 0 7 true 4 hsecond⟩

end Sv6x66.Ayla.SyncCall
