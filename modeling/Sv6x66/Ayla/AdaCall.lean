import Sv6x66.Lib.LinkedQueue
import Sv6x66.Lib.Run

/-! The callback queue of `al_ada_thread.c`. A callback is linked at most once because
of its flag `pending`, which is tested and set without the lock of the queue. -/
namespace Sv6x66.Ayla.AdaCall
open Sv6x66.Lib Function

variable {τ α : Type*}

/-- Where a caller of `al_ada_call` stands. -/
inductive CallPc (α : Type*) where
  | idle
  /-- The flag was clear. -/
  | tested (cb : α)
  /-- The flag is set, and the lock is not taken yet. -/
  | marked (cb : α)
  deriving DecidableEq

/-- Where the callback loop of `al_ada_main_loop` stands. -/
inductive LoopPc (α : Type*) where
  | waiting
  | unlinked (cb : α)
  /-- The assertion held. -/
  | asserted (cb : α)
  | running (cb : α)
  deriving DecidableEq

/-- `linked` and `ran` record the callbacks in the order they are linked and run. The
caller `none` is the main loop itself, in a callback. -/
structure Ada (τ α : Type*) where
  next : α → Option α
  pending : α → Bool
  cbQueue : Option α
  cbQueueTail : Option α
  caller : Option τ → CallPc α
  loop : LoopPc α
  assertFailed : Bool
  linked : List α
  ran : List α

/-- After `al_ada_init` and `al_ada_callback_init`. -/
def alAdaInit : Ada τ α where
  next := fun _ => none
  pending := fun _ => false
  cbQueue := none
  cbQueueTail := none
  caller := fun _ => .idle
  loop := .waiting
  assertFailed := false
  linked := []
  ran := []

inductive Event (τ α : Type*) where
  /-- `al_ada_call` tests the flag. -/
  | test (t : Option τ) (cb : α)
  | mark (t : Option τ)
  /-- The part of `al_ada_call` under the lock. -/
  | link (t : Option τ)
  /-- The part of the loop under the lock. -/
  | unlink
  | check
  /-- The flag is cleared and the callback begins. -/
  | clear
  | done

variable [DecidableEq τ] [DecidableEq α]

def linkCb (s : Ada τ α) (cb : α) : Ada τ α :=
  let s := match s.cbQueueTail with
    | some tail => { s with next := update s.next tail (some cb), cbQueueTail := some cb }
    | none => { s with cbQueue := some cb, cbQueueTail := some cb }
  { s with next := update s.next cb none, linked := s.linked ++ [cb] }

def unlinkCb (s : Ada τ α) (cb : α) : Ada τ α :=
  { s with
    cbQueue := s.next cb
    cbQueueTail := if s.next cb = none then none else s.cbQueueTail
    loop := .unlinked cb }

def isRunning : LoopPc α → Bool
  | .running _ => true
  | _ => false

/-- A failed assertion is the end. -/
def step (s : Ada τ α) (event : Event τ α) : Option (Ada τ α) :=
  if s.assertFailed then none
  else
    match event with
    | .test t cb =>
      if s.caller t = .idle ∧ (t = none → isRunning s.loop = true) then
        if s.pending cb then some s else some { s with caller := update s.caller t (.tested cb) }
      else none
    | .mark t =>
      match s.caller t with
      | .tested cb => some
        { s with pending := update s.pending cb true, caller := update s.caller t (.marked cb) }
      | _ => none
    | .link t =>
      match s.caller t with
      | .marked cb => some { linkCb s cb with caller := update s.caller t .idle }
      | _ => none
    | .unlink =>
      match s.loop, s.cbQueue with
      | .waiting, some cb => some (unlinkCb s cb)
      | _, _ => none
    | .check =>
      match s.loop with
      | .unlinked cb =>
        if s.pending cb then some { s with loop := .asserted cb }
        else some { s with assertFailed := true }
      | _ => none
    | .clear =>
      match s.loop with
      | .asserted cb => some
        { s with pending := update s.pending cb false, loop := .running cb, ran := s.ran ++ [cb] }
      | _ => none
    | .done =>
      match s.loop with
      | .running _ => if s.caller none = .idle then some { s with loop := .waiting } else none
      | _ => none

/-- The callback the loop has unlinked and whose flag it has not cleared. -/
def held : LoopPc α → Option α
  | .unlinked cb => some cb
  | .asserted cb => some cb
  | _ => none

omit [DecidableEq τ] [DecidableEq α] in
@[simp] theorem held_running (cb : α) : held (.running cb) = none := rfl

/-- What is promised of a state. -/
structure NoneLost (s : Ada τ α) : Prop where
  queue : ∃ nodes, Linked s.next s.cbQueue nodes ∧ ∀ cb, s.pending cb = true →
    nodes.count cb = 1 ∨ (∃ t, s.caller t = .marked cb) ∨ held s.loop = some cb
  order : s.ran <+: s.linked
  asserted : s.assertFailed = false

def found : CallPc α → Option α
  | .tested cb => some cb
  | _ => none

/-- The flag a caller found clear, and is about to set, is still clear. -/
def StillClear (s : Ada τ α) : Event τ α → Prop
  | .mark t => ∀ cb ∈ found (s.caller t), s.pending cb = false
  | _ => True

instance (s : Ada τ α) : DecidablePred (StillClear s)
  | .mark t => inferInstanceAs (Decidable (∀ cb ∈ found (s.caller t), s.pending cb = false))
  | .test _ _ | .link _ | .unlink | .check | .clear | .done => .isTrue trivial

/-! ### The invariant -/

/-- Every pending callback is at exactly one place. -/
structure Inv (s : Ada τ α) (nodes : List α) : Prop where
  queue : IsQueue s.next s.cbQueue s.cbQueueTail nodes
  pending : ∀ cb, s.pending cb = true ↔
    cb ∈ nodes ∨ (∃ t, s.caller t = .marked cb) ∨ held s.loop = some cb
  marked : ∀ t cb, s.caller t = .marked cb → cb ∉ nodes ∧ held s.loop ≠ some cb ∧
    ∀ t', s.caller t' = .marked cb → t' = t
  held : ∀ cb, held s.loop = some cb → cb ∉ nodes
  order : s.linked = s.ran ++ (AdaCall.held s.loop).toList ++ nodes
  asserted : s.assertFailed = false

variable {s s' : Ada τ α} {nodes : List α}

omit [DecidableEq τ] in
theorem Inv.noneLost (h : Inv s nodes) : NoneLost s where
  queue := by
    refine ⟨nodes, h.queue.linked, ?_⟩
    intro cb hpending
    rcases (h.pending cb).mp hpending with hmem | hother
    · exact .inl (List.count_eq_one_of_mem h.queue.nodup hmem)
    · exact .inr hother
  order := by
    rw [h.order, List.append_assoc]
    exact List.prefix_append _ _
  asserted := h.asserted

omit [DecidableEq τ] [DecidableEq α] in
theorem inv_alAdaInit : Inv (alAdaInit : Ada τ α) [] where
  queue := .nil _
  pending := by
    intro cb
    simp [alAdaInit, AdaCall.held]
  marked := by
    intro t cb h
    cases h
  held := by
    intro cb h
    cases h
  order := rfl
  asserted := rfl

omit [DecidableEq α] in
/-- A caller that has not marked a callback changes nothing for those that have. -/
theorem marked_update_iff {t t' : Option τ} {pc : CallPc α} {cb : α}
    (hbefore : ∀ cb, s.caller t ≠ .marked cb) (hafter : ∀ cb, pc ≠ .marked cb) :
    update s.caller t pc t' = .marked cb ↔ s.caller t' = .marked cb := by
  by_cases ht : t' = t
  · subst ht
    rw [update_self]
    exact iff_of_false (hafter cb) (hbefore cb)
  · rw [update_of_ne ht]

omit [DecidableEq α] in
theorem Inv.test (h : Inv s nodes) {t : Option τ} {cb : α} (hidle : s.caller t = .idle) :
    Inv { s with caller := update s.caller t (.tested cb) } nodes := by
  have hmarked {t' : Option τ} {c : α} :
      update s.caller t (.tested cb) t' = .marked c ↔ s.caller t' = .marked c := by
    refine marked_update_iff (fun c => ?_) (fun c => ?_)
    · rw [hidle]
      intro h
      cases h
    · intro h
      cases h
  refine ⟨h.queue, ?_, ?_, h.held, h.order, h.asserted⟩
  · intro c
    simp only [hmarked]
    exact h.pending c
  · intro t' c ht'
    simp only [hmarked] at ht' ⊢
    exact h.marked t' c ht'

theorem Inv.mark (h : Inv s nodes) {t : Option τ} {cb : α} (htested : s.caller t = .tested cb)
    (hclear : s.pending cb = false) :
    Inv { s with pending := update s.pending cb true,
                 caller := update s.caller t (.marked cb) } nodes := by
  have hnowhere : cb ∉ nodes ∧ (∀ t, s.caller t ≠ .marked cb) ∧ AdaCall.held s.loop ≠ some cb := by
    have hnot : ¬ s.pending cb = true := by
      rw [hclear]
      decide
    rw [h.pending cb] at hnot
    push Not at hnot
    exact hnot
  have hmarked {t' : Option τ} {c : α} : update s.caller t (.marked cb) t' = .marked c ↔
      (t' = t ∧ c = cb) ∨ s.caller t' = .marked c := by
    by_cases ht : t' = t
    · subst ht
      simp [htested, eq_comm]
    · simp [ht]
  refine ⟨h.queue, ?_, ?_, h.held, h.order, h.asserted⟩
  · intro c
    simp only [hmarked]
    by_cases hc : c = cb
    · subst hc
      exact iff_of_true (update_self ..) (.inr (.inl ⟨t, .inl ⟨rfl, rfl⟩⟩))
    · rw [update_of_ne hc, h.pending c]
      simp [hc]
  · intro t' c ht'
    rcases hmarked.mp ht' with ⟨rfl, rfl⟩ | hold
    · refine ⟨hnowhere.1, hnowhere.2.2, ?_⟩
      intro t'' ht''
      rcases hmarked.mp ht'' with ⟨rfl, -⟩ | hother
      · rfl
      · exact absurd hother (hnowhere.2.1 t'')
    · obtain ⟨hmem, hheld, hunique⟩ := h.marked t' c hold
      refine ⟨hmem, hheld, ?_⟩
      intro t'' ht''
      rcases hmarked.mp ht'' with ⟨rfl, rfl⟩ | hother
      · exact absurd hold (hnowhere.2.1 t')
      · exact hunique t'' hother

omit [DecidableEq τ] in
/-- What the enqueue does to the links. -/
theorem isQueue_linkCb {cb : α} (h : IsQueue s.next s.cbQueue s.cbQueueTail nodes)
    (hfresh : cb ∉ nodes) :
    IsQueue (linkCb s cb).next (linkCb s cb).cbQueue (linkCb s cb).cbQueueTail
      (nodes ++ [cb]) := by
  unfold linkCb
  cases htail : s.cbQueueTail with
  | none =>
    have hnil : nodes = [] := h.eq_nil_iff_tail.mp htail
    rw [hnil]
    exact .first (update_self ..)
  | some last =>
    have hne : last ≠ cb := by
      rintro rfl
      exact hfresh (h.tail_mem htail)
    refine h.snoc htail hfresh ?_ (update_self ..) ?_
    · dsimp only
      rw [update_of_ne hne, update_self]
    · intro y hy hlast
      dsimp only
      have hcb : y ≠ cb := by
        rintro rfl
        exact hfresh hy
      rw [update_of_ne hcb, update_of_ne hlast]

omit [DecidableEq τ] in
theorem linkCb_keeps (s : Ada τ α) (cb : α) :
    (linkCb s cb).pending = s.pending ∧ (linkCb s cb).loop = s.loop ∧
      (linkCb s cb).caller = s.caller ∧ (linkCb s cb).linked = s.linked ++ [cb] ∧
      (linkCb s cb).ran = s.ran ∧ (linkCb s cb).assertFailed = s.assertFailed := by
  unfold linkCb
  cases s.cbQueueTail <;> exact ⟨rfl, rfl, rfl, rfl, rfl, rfl⟩

theorem Inv.link (h : Inv s nodes) {t : Option τ} {cb : α} (hcaller : s.caller t = .marked cb) :
    Inv { linkCb s cb with caller := update s.caller t .idle } (nodes ++ [cb]) := by
  obtain ⟨hpending, hloop, -, hlinked, hran, hassert⟩ := linkCb_keeps s cb
  obtain ⟨hmem, hheld, hunique⟩ := h.marked t cb hcaller
  have hmarked {t' : Option τ} {c : α} : update s.caller t .idle t' = .marked c ↔
      t' ≠ t ∧ s.caller t' = .marked c := by
    by_cases ht : t' = t
    · subst ht
      simp
    · simp [ht]
  refine ⟨isQueue_linkCb h.queue hmem, ?_, ?_, ?_, ?_, hassert.trans h.asserted⟩
  · intro c
    simp only [hmarked, hpending, hloop, h.pending c, List.mem_append, List.mem_singleton]
    by_cases hc : c = cb
    · subst hc
      exact iff_of_true (.inr (.inl ⟨t, hcaller⟩)) (.inl (.inr rfl))
    · have hother (t' : Option τ) (ht' : s.caller t' = .marked c) : t' ≠ t := by
        rintro rfl
        rw [hcaller] at ht'
        cases ht'
        exact hc rfl
      constructor
      · rintro (hc' | ⟨t', ht'⟩ | hc')
        · exact .inl (.inl hc')
        · exact .inr (.inl ⟨t', hother t' ht', ht'⟩)
        · exact .inr (.inr hc')
      · rintro ((hc' | hc') | ⟨t', -, ht'⟩ | hc')
        · exact .inl hc'
        · exact absurd hc' hc
        · exact .inr (.inl ⟨t', ht'⟩)
        · exact .inr (.inr hc')
  · intro t' c ht'
    obtain ⟨hne, hold⟩ := hmarked.mp ht'
    obtain ⟨hmem', hheld', hunique'⟩ := h.marked t' c hold
    have hc : c ≠ cb := by
      rintro rfl
      exact hne (hunique t' hold)
    refine ⟨?_, hloop ▸ hheld', ?_⟩
    · rw [List.mem_append, List.mem_singleton]
      rintro (hin | hin)
      · exact hmem' hin
      · exact hc hin
    · intro t'' ht''
      exact hunique' t'' (hmarked.mp ht'').2
  · intro c hc
    rw [hloop] at hc
    rw [List.mem_append, List.mem_singleton]
    rintro (hin | rfl)
    · exact h.held c hc hin
    · exact hheld hc
  · simp only [hlinked, hran, hloop, h.order, List.append_assoc]

omit [DecidableEq τ] [DecidableEq α] in
theorem Inv.unlink {cb : α} {rest : List α} (h : Inv s (cb :: rest)) (hloop : s.loop = .waiting) :
    Inv (unlinkCb s cb) rest := by
  have hfresh := (List.nodup_cons.mp h.queue.nodup).1
  refine ⟨h.queue.unlink, ?_, ?_, ?_, ?_, h.asserted⟩
  · intro c
    simp only [unlinkCb, h.pending c, hloop, AdaCall.held, List.mem_cons, Option.some.injEq]
    constructor
    · rintro ((hc | hc) | hc | hc)
      · exact .inr (.inr hc.symm)
      · exact .inl hc
      · exact .inr (.inl hc)
      · cases hc
    · rintro (hc | hc | hc)
      · exact .inl (.inr hc)
      · exact .inr (.inl hc)
      · exact .inl (.inl hc.symm)
  · intro t c ht
    obtain ⟨hmem, -, hunique⟩ := h.marked t c ht
    refine ⟨fun hc => hmem (List.mem_cons_of_mem _ hc), ?_, hunique⟩
    intro hc
    cases hc
    exact hmem List.mem_cons_self
  · intro c hc
    cases hc
    exact hfresh
  · simp only [unlinkCb, h.order, hloop, AdaCall.held, Option.toList_none, List.append_nil,
      Option.toList_some, List.append_assoc, List.singleton_append]

omit [DecidableEq τ] [DecidableEq α] in
/-- The loop goes on with the callback it holds, or holds none before and after. -/
theorem Inv.atLoop (h : Inv s nodes) {pc : LoopPc α} (hheld : AdaCall.held pc = AdaCall.held s.loop) :
    Inv { s with loop := pc } nodes := by
  refine ⟨h.queue, ?_, ?_, ?_, ?_, h.asserted⟩
  · simpa only [hheld] using h.pending
  · simpa only [hheld] using h.marked
  · simpa only [hheld] using h.held
  · simpa only [hheld] using h.order

omit [DecidableEq τ] in
theorem Inv.clear (h : Inv s nodes) {cb : α} (hloop : s.loop = .asserted cb) :
    Inv { s with pending := update s.pending cb false, loop := .running cb,
                 ran := s.ran ++ [cb] } nodes := by
  have hheld : AdaCall.held s.loop = some cb := by rw [hloop]; rfl
  refine ⟨h.queue, ?_, ?_, ?_, ?_, h.asserted⟩
  · intro c
    by_cases hc : c = cb
    · subst hc
      simp only [update_self, Bool.false_eq_true, AdaCall.held, reduceCtorEq, or_false, false_iff,
        not_or, not_exists]
      exact ⟨h.held c hheld, fun t ht => (h.marked t c ht).2.1 hheld⟩
    · have hne : AdaCall.held s.loop ≠ some c := by
        rw [hheld]
        rintro ⟨⟩
        exact hc rfl
      simp only [update_of_ne hc, h.pending c, hne, or_false, held_running, reduceCtorEq]
  · intro t c ht
    obtain ⟨hmem, -, hunique⟩ := h.marked t c ht
    exact ⟨hmem, fun hc => (by cases hc), hunique⟩
  · intro c hc
    cases hc
  · rw [h.order, hheld]
    simp [AdaCall.held]

theorem inv_step {event : Event τ α} (h : Inv s nodes) (hclear : StillClear s event)
    (hstep : step s event = some s') : ∃ nodes, Inv s' nodes := by
  unfold step at hstep
  rw [if_neg (by rw [h.asserted]; decide)] at hstep
  cases event with
  | test t cb =>
    dsimp only at hstep
    split_ifs at hstep with hidle hpending
    · cases hstep
      exact ⟨nodes, h⟩
    · cases hstep
      exact ⟨nodes, h.test hidle.1⟩
  | mark t =>
    dsimp only at hstep
    split at hstep
    · rename_i cb htested
      cases hstep
      exact ⟨nodes, h.mark htested (hclear cb (by rw [htested]; rfl))⟩
    · cases hstep
  | link t =>
    dsimp only at hstep
    split at hstep
    · rename_i cb hmarked
      cases hstep
      exact ⟨nodes ++ [cb], h.link hmarked⟩
    · cases hstep
  | unlink =>
    dsimp only at hstep
    split at hstep
    · rename_i cb hloop hqueue
      cases hstep
      cases nodes with
      | nil => cases hqueue.symm.trans h.queue.head_eq
      | cons x rest =>
        cases hqueue.symm.trans h.queue.head_eq
        exact ⟨rest, h.unlink hloop⟩
    · cases hstep
  | check =>
    dsimp only at hstep
    split at hstep
    · rename_i cb hloop
      have hheld : AdaCall.held s.loop = some cb := by rw [hloop]; rfl
      rw [if_pos ((h.pending cb).mpr (.inr (.inr hheld)))] at hstep
      cases hstep
      exact ⟨nodes, h.atLoop hheld.symm⟩
    · cases hstep
  | clear =>
    dsimp only at hstep
    split at hstep
    · rename_i cb hloop
      cases hstep
      exact ⟨nodes, h.clear hloop⟩
    · cases hstep
  | done =>
    dsimp only at hstep
    split at hstep
    · rename_i cb hloop
      split at hstep
      · cases hstep
        exact ⟨nodes, h.atLoop (by rw [hloop]; rfl)⟩
      · cases hstep
    · cases hstep

/-- No callback is lost in a run in which every flag is still clear when it is set. -/
theorem noneLost_of_stillClear (events : List (Event τ α)) (s : Ada τ α)
    (hrun : Run step StillClear alAdaInit events s) : NoneLost s := by
  obtain ⟨nodes, hinv⟩ : ∃ nodes, Inv s nodes := by
    refine hrun.invariant (I := fun s => ∃ nodes, Inv s nodes) ⟨[], inv_alAdaInit⟩ ?_
    rintro s event s' ⟨nodes, hinv⟩ hclear hstep
    exact inv_step hinv hclear hstep
  exact hinv.noneLost

/-- Two callers with a callback each, turn by turn; both are linked and run. -/
theorem two_calls_kept : ∃ s : Ada Nat Nat, s.ran = [0, 5] ∧ NoneLost s := by
  let events : List (Event Nat Nat) :=
    [.test (some 1) 0, .test (some 2) 5, .mark (some 2), .mark (some 1), .link (some 1), .unlink,
      .link (some 2), .check, .clear, .done, .unlink, .check, .clear, .done]
  obtain ⟨s, hexec, hran⟩ : ∃ s : Ada Nat Nat,
      exec (guarded step fun s event => decide (StillClear s event)) alAdaInit events = some s ∧
        s.ran = [0, 5] := ⟨_, rfl, rfl⟩
  refine ⟨s, hran, noneLost_of_stillClear events s ?_⟩
  exact (Run.of_exec_guarded hexec).mono fun _ _ h => of_decide_eq_true h

/-! ### Two callers at once -/

/-- Both find the flag clear, and the second links the callback when it has run. -/
def twoCallers : List (Event Nat Nat) :=
  [.test (some 1) 0, .test (some 2) 0, .mark (some 1), .mark (some 2), .link (some 1), .unlink,
    .check, .clear, .done, .link (some 2), .unlink, .check]

theorem assertion_fails : ¬ ∀ (events : List (Event Nat Nat)) (s : Ada Nat Nat),
    Run step anyStep alAdaInit events s → NoneLost s := by
  intro hnone
  obtain ⟨s, hexec, hfailed⟩ : ∃ s : Ada Nat Nat, exec step alAdaInit twoCallers = some s ∧
      s.assertFailed = true := ⟨_, rfl, rfl⟩
  have hasserted := (hnone twoCallers s (Run.of_exec hexec)).asserted
  rw [hfailed] at hasserted
  cases hasserted

end Sv6x66.Ayla.AdaCall
