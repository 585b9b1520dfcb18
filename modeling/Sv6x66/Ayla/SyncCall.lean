import Sv6x66.Lib.LinkedQueue
import Sv6x66.Lib.Run

/-! The synchronous calls of `al_ada_thread.c`. What is queued is a node on the stack of
the caller, which sleeps on a semaphore in it until the main loop has run its callback. -/
namespace Sv6x66.Ayla.SyncCall
open Sv6x66.Lib Function

variable {τ ν α : Type*}

/-- Where a caller of `al_ada_sync_call` stands, with the callback and its node. `call`
counts the calls in the order they took the lock. -/
inductive CallPc (ν α : Type*) where
  | idle
  /-- The node is initialised. -/
  | prepared (cb : α) (node : ν)
  /-- In front of `OS_SemWait`. -/
  | waiting (call : Nat) (cb : α) (node : ν)
  | woken (call : Nat) (cb : α) (node : ν)

/-- Where the loop of `al_ada_main_loop` over these calls stands. -/
inductive LoopPc (ν : Type*) where
  | idle
  | unlinked (node : ν)
  /-- The callback has run, and the semaphore is not signalled yet. -/
  | ran (node : ν)

/-- `sem` is the count of the semaphore in a node, `none` where there is none. `linked`,
`ran` and `returned` record the callbacks as they were linked, were run and, with the number
of the call, returned to their callers. -/
structure Ada (τ ν α : Type*) where
  next : ν → Option ν
  cb : ν → α
  sem : ν → Option Nat
  syncCbQueue : Option ν
  syncCbQueueTail : Option ν
  caller : τ → CallPc ν α
  loop : LoopPc ν
  lostSignal : Bool
  linked : List α
  ran : List α
  returned : List (Nat × α)

/-- The memory of the stacks holds anything. -/
def alAdaInit (next : ν → Option ν) (cb : ν → α) : Ada τ ν α where
  next := next
  cb := cb
  sem := fun _ => none
  syncCbQueue := none
  syncCbQueueTail := none
  caller := fun _ => .idle
  loop := .idle
  lostSignal := false
  linked := []
  ran := []
  returned := []

inductive Event (τ ν α : Type*) where
  /-- `memset`, the callback and `OS_SemInit`. -/
  | prepare (t : τ) (cb : α) (node : ν)
  /-- The part of the call under the lock. -/
  | link (t : τ)
  | wake (t : τ)
  /-- `OS_SemDelete` and the return. -/
  | finish (t : τ)
  /-- Something else is written where no call has its node. -/
  | reuse (node : ν) (next : Option ν) (cb : α)
  /-- The part of the loop under the lock. -/
  | unlink
  | run
  | signal

variable [DecidableEq τ] [DecidableEq ν]

def linkNode (s : Ada τ ν α) (node : ν) : Ada τ ν α :=
  match s.syncCbQueueTail with
  | some tail => { s with next := update s.next tail (some node), syncCbQueueTail := some node }
  | none => { s with syncCbQueue := some node, syncCbQueueTail := some node }

def step (s : Ada τ ν α) : Event τ ν α → Option (Ada τ ν α)
  | .prepare t cb node =>
    match s.caller t with
    | .idle => some { s with
      next := update s.next node none
      cb := update s.cb node cb
      sem := update s.sem node (some 0)
      caller := update s.caller t (.prepared cb node) }
    | _ => none
  | .link t =>
    match s.caller t with
    | .prepared cb node => some { linkNode s node with
      caller := update s.caller t (.waiting s.linked.length cb node)
      linked := s.linked ++ [cb] }
    | _ => none
  | .wake t =>
    match s.caller t with
    | .waiting call cb node =>
      match s.sem node with
      | some (count + 1) => some { s with
        sem := update s.sem node (some count)
        caller := update s.caller t (.woken call cb node) }
      | _ => none
    | _ => none
  | .finish t =>
    match s.caller t with
    | .woken call cb node => some { s with
      sem := update s.sem node none
      caller := update s.caller t .idle
      returned := s.returned ++ [(call, cb)] }
    | _ => none
  | .reuse node next cb => some { s with
    next := update s.next node next
    cb := update s.cb node cb
    sem := update s.sem node none }
  | .unlink =>
    match s.loop, s.syncCbQueue with
    | .idle, some node => some { s with
      syncCbQueue := s.next node
      syncCbQueueTail := if s.next node = none then none else s.syncCbQueueTail
      loop := .unlinked node }
    | _, _ => none
  | .run =>
    match s.loop with
    | .unlinked node => some { s with loop := .ran node, ran := s.ran ++ [s.cb node] }
    | _ => none
  | .signal =>
    match s.loop with
    | .ran node =>
      match s.sem node with
      -- the maximal count is 1
      | some count => some { s with
        sem := update s.sem node (some (min (count + 1) 1)), loop := .idle }
      | none => some { s with lostSignal := true, loop := .idle }
    | _ => none

/-- The node of a call in progress. -/
def frame : CallPc ν α → Option ν
  | .idle => none
  | .prepared _ node | .waiting _ _ node | .woken _ _ node => some node

/-- The stacks are apart from each other and from what is written elsewhere. -/
def Apart (s : Ada τ ν α) : Event τ ν α → Prop
  | .prepare _ _ node | .reuse node _ _ => ∀ t, frame (s.caller t) ≠ some node
  | _ => True

/-- The node the loop has unlinked and not signalled. -/
def held : LoopPc ν → Option ν
  | .idle => none
  | .unlinked node | .ran node => some node

/-- What is promised of a state: the callbacks run in the order of the calls, a call returns
with its own callback run, once, and the loop only looks at nodes of calls in progress. -/
structure Synchronous (s : Ada τ ν α) : Prop where
  order : s.ran <+: s.linked
  returned : ∀ call cb, (call, cb) ∈ s.returned → s.ran[call]? = some cb
  once : (s.returned.map Prod.fst).Nodup
  alive : ∃ nodes, Linked s.next s.syncCbQueue nodes ∧ ∀ node ∈ (held s.loop).toList ++ nodes,
    ∃ t call, s.caller t = .waiting call (s.cb node) node
  signalled : s.lostSignal = false

/-! ### The nodes -/

/-- The node whose callback is to be run before those in the queue. -/
def unrun : LoopPc ν → Option ν
  | .unlinked node => some node
  | _ => none

/-- The nodes behind the `ran.length` first ones are those in the queue, each with the caller
that waits at it. -/
structure Inv (s : Ada τ ν α) (nodes : List ν) : Prop where
  queue : IsQueue s.next s.syncCbQueue s.syncCbQueueTail nodes
  fresh : ∀ node, held s.loop = some node → node ∉ nodes
  frames : ∀ t t' node, frame (s.caller t) = some node → frame (s.caller t') = some node → t = t'
  order : s.linked = s.ran ++ ((unrun s.loop).toList ++ nodes).map s.cb
  prepared : ∀ t cb node, s.caller t = .prepared cb node →
    s.next node = none ∧ s.cb node = cb ∧ s.sem node = some 0
  queued : ∀ i node, ((unrun s.loop).toList ++ nodes)[i]? = some node →
    ∃ t, s.caller t = .waiting (s.ran.length + i) (s.cb node) node ∧ s.sem node = some 0
  served : ∀ node, s.loop = .ran node → ∃ t call, s.caller t = .waiting call (s.cb node) node ∧
    s.ran[call]? = some (s.cb node) ∧ s.sem node = some 0
  waiting : ∀ t call cb node, s.caller t = .waiting call cb node →
    node ∈ (held s.loop).toList ++ nodes ∨ s.sem node = some 1 ∧ s.ran[call]? = some cb
  woken : ∀ t call cb node, s.caller t = .woken call cb node → s.ran[call]? = some cb
  returned : ∀ call cb, (call, cb) ∈ s.returned → s.ran[call]? = some cb
  signalled : s.lostSignal = false

variable {s s' : Ada τ ν α} {nodes : List ν}

omit [DecidableEq τ] [DecidableEq ν] in
theorem inv_alAdaInit (next : ν → Option ν) (cb : ν → α) :
    Inv (alAdaInit next cb : Ada τ ν α) [] where
  queue := .nil _
  fresh := by simp
  frames := by
    intro t t' node h
    cases h
  order := rfl
  prepared := by
    intro t cb node h
    cases h
  queued := by
    intro i node h
    cases h
  served := by
    intro node h
    cases h
  waiting := by
    intro t call cb node h
    cases h
  woken := by
    intro t call cb node h
    cases h
  returned := by simp [alAdaInit]
  signalled := rfl

omit [DecidableEq τ] [DecidableEq ν] in
/-- A caller waits at every node the loop may look at. -/
theorem Inv.caller_of_mem (h : Inv s nodes) {node : ν}
    (hmem : node ∈ (held s.loop).toList ++ nodes) :
    ∃ t call, s.caller t = .waiting call (s.cb node) node ∧ s.sem node = some 0 := by
  have hqueued : node ∈ (unrun s.loop).toList ++ nodes →
      ∃ t call, s.caller t = .waiting call (s.cb node) node ∧ s.sem node = some 0 := by
    intro hmem
    obtain ⟨i, hi⟩ := List.mem_iff_getElem?.mp hmem
    obtain ⟨t, ht⟩ := h.queued i node hi
    exact ⟨t, _, ht⟩
  rcases List.mem_append.mp hmem with hheld | hnodes
  · cases hloop : s.loop with
    | idle =>
      rw [hloop] at hheld
      cases hheld
    | unlinked other =>
      rw [hloop] at hheld
      obtain rfl := List.mem_singleton.mp hheld
      exact hqueued (by simp [hloop, unrun])
    | ran other =>
      rw [hloop] at hheld
      obtain rfl := List.mem_singleton.mp hheld
      obtain ⟨t, call, ht, -, hsem⟩ := h.served node hloop
      exact ⟨t, call, ht, hsem⟩
  · exact hqueued (List.mem_append_right _ hnodes)

omit [DecidableEq τ] [DecidableEq ν] in
theorem unrun_subset (loop : LoopPc ν) : (unrun loop).toList ⊆ (held loop).toList := by
  cases loop <;> simp [unrun, held]

omit [DecidableEq τ] [DecidableEq ν] in
/-- Memory is written at a node the loop does not look at, by the call it belongs to or by
none. -/
theorem Inv.elsewhere (h : Inv s nodes) {x : ν} (hx : x ∉ (held s.loop).toList ++ nodes)
    {next : ν → Option ν} {cb : ν → α} {sem : ν → Option Nat} {caller : τ → CallPc ν α}
    {returned : List (Nat × α)}
    (hmemory : ∀ y ≠ x, next y = s.next y ∧ cb y = s.cb y ∧ sem y = s.sem y)
    (hcaller : ∀ t node, node ≠ x →
      frame (s.caller t) = some node ∨ frame (caller t) = some node → caller t = s.caller t)
    (hunique : ∀ t t', frame (caller t) = some x → frame (caller t') = some x → t = t')
    (hprepared : ∀ t c, caller t = .prepared c x → next x = none ∧ cb x = c ∧ sem x = some 0)
    (hwaiting : ∀ t call c, caller t ≠ .waiting call c x)
    (hwoken : ∀ t call c, caller t = .woken call c x → s.ran[call]? = some c)
    (hreturned : ∀ call c, (call, c) ∈ returned → s.ran[call]? = some c) :
    Inv { s with next, cb, sem, caller, returned } nodes := by
  have hne : ∀ node ∈ (held s.loop).toList ++ nodes, node ≠ x := by
    rintro node hmem rfl
    exact hx hmem
  have hunrun : ∀ node ∈ (unrun s.loop).toList ++ nodes, node ≠ x := by
    intro node hmem
    refine hne node (List.mem_append.mpr ((List.mem_append.mp hmem).imp_left fun hunrun => ?_))
    exact unrun_subset s.loop hunrun
  have hold : ∀ t node, node ≠ x → frame (caller t) = some node → caller t = s.caller t :=
    fun t node hnode hframe => hcaller t node hnode (.inr hframe)
  refine ⟨h.queue.congr fun y hy => ?_, h.fresh, ?_, ?_, ?_, ?_, ?_, ?_, ?_, hreturned,
    h.signalled⟩
  · exact (hmemory y (hne y (List.mem_append_right _ hy))).1
  · intro t t' node ht ht'
    by_cases hnode : node = x
    · subst hnode
      exact hunique t t' ht ht'
    · dsimp only at ht ht'
      rw [hold t node hnode ht] at ht
      rw [hold t' node hnode ht'] at ht'
      exact h.frames t t' node ht ht'
  · rw [h.order]
    congr 1
    exact List.map_congr_left fun node hmem => (hmemory node (hunrun node hmem)).2.1.symm
  · intro t c node ht
    by_cases hnode : node = x
    · subst hnode
      exact hprepared t c ht
    · obtain ⟨hnext, hcb, hsem⟩ := hmemory node hnode
      dsimp only at ht ⊢
      rw [hold t node hnode (ht ▸ rfl)] at ht
      rw [hnext, hcb, hsem]
      exact h.prepared t c node ht
  · intro i node hi
    have hnode := hunrun node (List.mem_of_getElem? hi)
    obtain ⟨-, hcb, hsem⟩ := hmemory node hnode
    obtain ⟨t, ht, hzero⟩ := h.queued i node hi
    refine ⟨t, ?_, hsem.trans hzero⟩
    dsimp only
    rw [hcaller t node hnode (.inl (ht ▸ rfl)), hcb]
    exact ht
  · intro node hloop
    have hnode := hne node (by simp [show s.loop = _ from hloop, held])
    obtain ⟨-, hcb, hsem⟩ := hmemory node hnode
    obtain ⟨t, call, ht, hran, hzero⟩ := h.served node hloop
    refine ⟨t, call, ?_, ?_, hsem.trans hzero⟩
    · dsimp only
      rw [hcaller t node hnode (.inl (ht ▸ rfl)), hcb]
      exact ht
    · dsimp only
      rw [hcb]
      exact hran
  · intro t call c node ht
    have hnode : node ≠ x := by
      rintro rfl
      exact hwaiting t call c ht
    dsimp only at ht ⊢
    rw [hold t node hnode (ht ▸ rfl)] at ht
    rw [(hmemory node hnode).2.2]
    exact h.waiting t call c node ht
  · intro t call c node ht
    by_cases hnode : node = x
    · subst hnode
      exact hwoken t call c ht
    · dsimp only at ht
      rw [hold t node hnode (ht ▸ rfl)] at ht
      exact h.woken t call c node ht

/-! ### The steps -/

omit [DecidableEq ν] in
theorem frame_update {t : τ} {pc : CallPc ν α} {node : ν} {t' : τ}
    (h : frame (update s.caller t pc t') = some node) :
    t' = t ∧ frame pc = some node ∨ t' ≠ t ∧ frame (s.caller t') = some node := by
  by_cases ht : t' = t
  · subst ht
    rw [update_self] at h
    exact .inl ⟨rfl, h⟩
  · rw [update_of_ne ht] at h
    exact .inr ⟨ht, h⟩

theorem Inv.prepare (h : Inv s nodes) {t : τ} {cb : α} {node : ν} (hidle : s.caller t = .idle)
    (hapart : ∀ t, frame (s.caller t) ≠ some node) :
    Inv { s with
      next := update s.next node none
      cb := update s.cb node cb
      sem := update s.sem node (some 0)
      caller := update s.caller t (.prepared cb node) } nodes := by
  have hself {t' : τ} {pc : CallPc ν α} (hpc : frame pc = some node)
      (ht' : update s.caller t (.prepared cb node) t' = pc) : t' = t ∧ pc = .prepared cb node := by
    rcases frame_update (ht' ▸ hpc) with ⟨rfl, -⟩ | ⟨-, hother⟩
    · rw [update_self] at ht'
      exact ⟨rfl, ht'.symm⟩
    · exact absurd hother (hapart t')
  refine h.elsewhere (x := node) ?_ ?_ ?_ ?_ ?_ ?_ ?_ h.returned
  · intro hmem
    obtain ⟨t', call, ht', -⟩ := h.caller_of_mem hmem
    exact hapart t' (ht' ▸ rfl)
  · intro y hy
    exact ⟨update_of_ne hy .., update_of_ne hy .., update_of_ne hy ..⟩
  · rintro t' y hy (hbefore | hafter)
    · refine update_of_ne ?_ ..
      rintro rfl
      rw [hidle] at hbefore
      cases hbefore
    · rcases frame_update hafter with ⟨rfl, hframe⟩ | ⟨hne, -⟩
      · exact absurd (Option.some.inj hframe).symm hy
      · exact update_of_ne hne ..
  · intro t' t'' ht' ht''
    rw [(hself ht' rfl).1, (hself ht'' rfl).1]
  · intro t' c ht'
    cases (hself rfl ht').2
    exact ⟨update_self .., update_self .., update_self ..⟩
  · intro t' call c ht'
    cases (hself rfl ht').2
  · intro t' call c ht'
    cases (hself rfl ht').2

omit [DecidableEq τ] in
theorem Inv.reuse (h : Inv s nodes) {node : ν} (next : Option ν) (cb : α)
    (hapart : ∀ t, frame (s.caller t) ≠ some node) :
    Inv { s with
      next := update s.next node next
      cb := update s.cb node cb
      sem := update s.sem node none } nodes := by
  have hno {t : τ} {pc : CallPc ν α} (hpc : frame pc = some node) : s.caller t ≠ pc := by
    rintro rfl
    exact hapart t hpc
  refine h.elsewhere (x := node) ?_ ?_ ?_ ?_ ?_ ?_ ?_ h.returned
  · intro hmem
    obtain ⟨t', call, ht', -⟩ := h.caller_of_mem hmem
    exact hapart t' (ht' ▸ rfl)
  · intro y hy
    exact ⟨update_of_ne hy .., update_of_ne hy .., update_of_ne hy ..⟩
  · exact fun _ _ _ _ => rfl
  · exact fun t _ ht _ => absurd ht (hapart t)
  · exact fun t _ ht => absurd ht (hno rfl)
  · exact fun t _ _ => hno rfl
  · exact fun t _ _ ht => absurd ht (hno rfl)

/-- A call goes on where its node is left alone, and its own steps change nothing else. -/
theorem Inv.own (h : Inv s nodes) {t : τ} (node : ν) {pc : CallPc ν α}
    (hnode : frame (s.caller t) = some node) (haway : node ∉ (held s.loop).toList ++ nodes)
    (hframe : ∀ x, frame pc = some x → x = node) (hprepared : ∀ c, pc ≠ .prepared c node)
    (hwaiting : ∀ call c, pc ≠ .waiting call c node)
    (hwoken : ∀ call c, pc = .woken call c node → s.ran[call]? = some c) (count : Option Nat)
    {returned : List (Nat × α)}
    (hreturned : ∀ call c, (call, c) ∈ returned → s.ran[call]? = some c) :
    Inv { s with
      sem := update s.sem node count
      caller := update s.caller t pc
      returned } nodes := by
  have hself {t' : τ} {pc' : CallPc ν α} (hpc : frame pc' = some node)
      (ht' : update s.caller t pc t' = pc') : t' = t ∧ pc' = pc := by
    rcases frame_update (ht' ▸ hpc) with ⟨rfl, -⟩ | ⟨hne, hother⟩
    · rw [update_self] at ht'
      exact ⟨rfl, ht'.symm⟩
    · exact absurd (h.frames t' t node hother hnode) hne
  refine h.elsewhere (x := node) haway ?_ ?_ ?_ ?_ ?_ ?_ hreturned
  · intro y hy
    exact ⟨rfl, rfl, update_of_ne hy ..⟩
  · rintro t' y hy (hbefore | hafter)
    · refine update_of_ne ?_ ..
      rintro rfl
      rw [hnode] at hbefore
      exact hy (Option.some.inj hbefore).symm
    · rcases frame_update hafter with ⟨rfl, hpc⟩ | ⟨hne, -⟩
      · exact absurd (hframe y hpc) hy
      · exact update_of_ne hne ..
  · intro t' t'' ht' ht''
    rw [(hself ht' rfl).1, (hself ht'' rfl).1]
  · intro t' c ht'
    exact absurd (hself rfl ht').2.symm (hprepared c)
  · intro t' call c ht'
    exact absurd (hself rfl ht').2.symm (hwaiting call c)
  · intro t' call c ht'
    exact hwoken call c (hself rfl ht').2.symm

omit [DecidableEq τ] [DecidableEq ν] in
/-- The loop looks at the node of no caller that does not wait, or was signalled. -/
theorem Inv.away (h : Inv s nodes) {t : τ} (node : ν) (hnode : frame (s.caller t) = some node)
    (hnot : ∀ call cb, s.caller t = .waiting call cb node → s.sem node ≠ some 0) :
    node ∉ (held s.loop).toList ++ nodes := by
  intro hmem
  obtain ⟨t', call, ht', hsem⟩ := h.caller_of_mem hmem
  cases h.frames t t' node hnode (ht' ▸ rfl)
  exact hnot call _ ht' hsem

omit [DecidableEq τ] in
theorem isQueue_linkNode {node : ν} (h : IsQueue s.next s.syncCbQueue s.syncCbQueueTail nodes)
    (hfresh : node ∉ nodes) (hnext : s.next node = none) :
    IsQueue (linkNode s node).next (linkNode s node).syncCbQueue
      (linkNode s node).syncCbQueueTail (nodes ++ [node]) := by
  unfold linkNode
  cases htail : s.syncCbQueueTail with
  | none =>
    rw [h.eq_nil_iff_tail.mp htail]
    exact .first hnext
  | some last =>
    have hne : node ≠ last := by
      rintro rfl
      exact hfresh (h.tail_mem htail)
    refine h.snoc htail hfresh (update_self ..) ?_ fun y _ hy => update_of_ne hy ..
    exact (update_of_ne hne ..).trans hnext

omit [DecidableEq τ] in
theorem linkNode_keeps (s : Ada τ ν α) (node : ν) :
    (linkNode s node).cb = s.cb ∧ (linkNode s node).sem = s.sem ∧
      (linkNode s node).loop = s.loop ∧ (linkNode s node).ran = s.ran ∧
      (linkNode s node).returned = s.returned ∧ (linkNode s node).lostSignal = s.lostSignal ∧
      ∀ y, s.syncCbQueueTail ≠ some y → (linkNode s node).next y = s.next y := by
  unfold linkNode
  cases htail : s.syncCbQueueTail with
  | none => exact ⟨rfl, rfl, rfl, rfl, rfl, rfl, fun _ _ => rfl⟩
  | some last =>
    refine ⟨rfl, rfl, rfl, rfl, rfl, rfl, fun y hy => update_of_ne ?_ ..⟩
    rintro rfl
    exact hy rfl

theorem Inv.link (h : Inv s nodes) {t : τ} {cb : α} {node : ν}
    (hcaller : s.caller t = .prepared cb node) :
    Inv { linkNode s node with
      caller := update s.caller t (.waiting s.linked.length cb node)
      linked := s.linked ++ [cb] } (nodes ++ [node]) := by
  obtain ⟨hnext, hcb, hzero⟩ := h.prepared t cb node hcaller
  have haway : node ∉ (held s.loop).toList ++ nodes := by
    refine h.away (t := t) node (hcaller ▸ rfl) fun call c ht => ?_
    rw [hcaller] at ht
    cases ht
  have hlength : s.linked.length = s.ran.length + ((unrun s.loop).toList ++ nodes).length := by
    rw [h.order, List.length_append, List.length_map]
  obtain ⟨hcbs, hsem, hloop, hran, hreturned, hsignalled, hnexts⟩ := linkNode_keeps s node
  have hother {t' : τ} {pc : CallPc ν α} (hpc : frame pc ≠ some node)
      (ht' : update s.caller t (.waiting s.linked.length cb node) t' = pc) : s.caller t' = pc := by
    by_cases hsame : t' = t
    · subst hsame
      rw [update_self] at ht'
      exact absurd (ht' ▸ rfl) hpc
    · rwa [update_of_ne hsame] at ht'
  have hkept {t' : τ} {call : Nat} {c : α} {y : ν} (ht' : s.caller t' = .waiting call c y) :
      update s.caller t (.waiting s.linked.length cb node) t' = .waiting call c y := by
    rw [update_of_ne, ht']
    rintro rfl
    rw [hcaller] at ht'
    cases ht'
  constructor
  · exact isQueue_linkNode h.queue (fun hmem => haway (List.mem_append_right _ hmem)) hnext
  · intro y hy
    dsimp only at hy
    rw [hloop] at hy
    rw [List.mem_append, List.mem_singleton]
    rintro (hmem | rfl)
    · exact h.fresh y hy hmem
    · exact haway (List.mem_append_left _ (by simp [hy]))
  · intro t' t'' y ht' ht''
    rcases frame_update ht' with ⟨rfl, hy⟩ | ⟨hne', hy⟩ <;>
      rcases frame_update ht'' with ⟨rfl, hy'⟩ | ⟨hne'', hy'⟩
    · rfl
    · cases hy
      exact h.frames t' t'' node (hcaller ▸ rfl) hy'
    · cases hy'
      exact h.frames t' t'' node hy (hcaller ▸ rfl)
    · exact h.frames t' t'' y hy hy'
  · simp only [hloop, hran, hcbs, h.order, hcb, List.map_append, List.map_cons, List.map_nil,
      List.append_assoc]
  · intro t' c y ht'
    dsimp only at ht' ⊢
    by_cases hsame : t' = t
    · subst hsame
      rw [update_self] at ht'
      cases ht'
    · rw [update_of_ne hsame] at ht'
      obtain ⟨hnone, hc, hs⟩ := h.prepared t' c y ht'
      rw [hcbs, hsem]
      refine ⟨(hnexts y fun htail => ?_).trans hnone, hc, hs⟩
      -- the node of another call that is prepared is not the last one of the queue
      have hmem := h.queue.tail_mem htail
      refine h.away (t := t') _ (ht' ▸ rfl) (fun call c' hw => ?_) (List.mem_append_right _ hmem)
      rw [ht'] at hw
      cases hw
  · intro i y hi
    dsimp only at hi ⊢
    rw [hloop, ← List.append_assoc] at hi
    rw [hcbs, hsem, hran]
    rcases Nat.lt_trichotomy i ((unrun s.loop).toList ++ nodes).length with hlt | heq | hgt
    · rw [List.getElem?_append_left hlt] at hi
      obtain ⟨t', ht', hs⟩ := h.queued i y hi
      exact ⟨t', hkept ht', hs⟩
    · rw [heq, List.getElem?_append_right (le_refl _), Nat.sub_self] at hi
      cases hi
      refine ⟨t, ?_, hzero⟩
      rw [update_self, hlength, heq, hcb]
    · rw [List.getElem?_eq_none (by simp at hgt ⊢; omega)] at hi
      cases hi
  · intro y hy
    dsimp only at hy ⊢
    rw [hloop] at hy
    rw [hcbs, hsem, hran]
    obtain ⟨t', call, ht', hrest⟩ := h.served y hy
    exact ⟨t', call, hkept ht', hrest⟩
  · intro t' call c y ht'
    dsimp only at ht' ⊢
    rw [hloop, hsem, hran, ← List.append_assoc, List.mem_append, List.mem_singleton]
    by_cases hy : y = node
    · exact .inl (.inr hy)
    · have hpc : frame (.waiting call c y : CallPc ν α) ≠ some node :=
        fun heq => hy (Option.some.inj heq)
      exact (h.waiting t' call c y (hother hpc ht')).imp_left .inl
  · intro t' call c y ht'
    dsimp only at ht' ⊢
    rw [hran]
    by_cases hsame : t' = t
    · subst hsame
      rw [update_self] at ht'
      cases ht'
    · rw [update_of_ne hsame] at ht'
      exact h.woken t' call c y ht'
  · dsimp only
    rw [hreturned, hran]
    exact h.returned
  · exact hsignalled.trans h.signalled

omit [DecidableEq τ] [DecidableEq ν] in
theorem Inv.unlink {node : ν} {rest : List ν} (h : Inv s (node :: rest)) (hloop : s.loop = .idle) :
    Inv { s with
      syncCbQueue := s.next node
      syncCbQueueTail := if s.next node = none then none else s.syncCbQueueTail
      loop := .unlinked node } rest where
  queue := h.queue.unlink
  fresh := by
    intro y hy
    cases hy
    exact (List.nodup_cons.mp h.queue.nodup).1
  frames := h.frames
  order := by
    have horder := h.order
    rwa [hloop] at horder
  prepared := h.prepared
  queued := by
    have hqueued := h.queued
    rwa [hloop] at hqueued
  served := by
    intro y hy
    cases hy
  waiting := by
    have hwaiting := h.waiting
    rwa [hloop] at hwaiting
  woken := h.woken
  returned := h.returned
  signalled := h.signalled

theorem getElem?_concat {l : List α} {i : Nat} {a : α} (h : l[i]? = some a) (b : α) :
    (l ++ [b])[i]? = some a := by
  obtain ⟨hlt, -⟩ := List.getElem?_eq_some_iff.mp h
  rwa [List.getElem?_append_left hlt]

omit [DecidableEq τ] [DecidableEq ν] in
theorem Inv.run (h : Inv s nodes) {node : ν} (hloop : s.loop = .unlinked node) :
    Inv { s with loop := .ran node, ran := s.ran ++ [s.cb node] } nodes where
  queue := h.queue
  fresh := by
    intro y hy
    cases hy
    exact h.fresh node (by rw [hloop]; rfl)
  frames := h.frames
  order := by
    have horder := h.order
    rw [hloop] at horder
    rw [horder, List.append_assoc]
    rfl
  prepared := h.prepared
  queued := by
    intro i y hi
    have hnext : ((unrun s.loop).toList ++ nodes)[i + 1]? = some y := by
      rw [hloop]
      exact hi
    obtain ⟨t, ht, hsem⟩ := h.queued (i + 1) y hnext
    refine ⟨t, ?_, hsem⟩
    rw [List.length_append, List.length_singleton, Nat.add_assoc, Nat.add_comm 1 i]
    exact ht
  served := by
    intro y hy
    cases hy
    obtain ⟨t, ht, hsem⟩ := h.queued 0 node (by rw [hloop]; rfl)
    refine ⟨t, s.ran.length, ht, ?_, hsem⟩
    exact List.getElem?_concat_length
  waiting := by
    intro t call cb y ht
    have hwaiting := h.waiting t call cb y ht
    rw [hloop] at hwaiting
    exact hwaiting.imp_right fun hserved => ⟨hserved.1, getElem?_concat hserved.2 _⟩
  woken := fun t call cb y ht => getElem?_concat (h.woken t call cb y ht) _
  returned := fun call cb hmem => getElem?_concat (h.returned call cb hmem) _
  signalled := h.signalled

omit [DecidableEq τ] in
theorem Inv.signal (h : Inv s nodes) {node : ν} (hloop : s.loop = .ran node) :
    s.sem node = some 0 ∧
      Inv { s with sem := update s.sem node (some 1), loop := .idle } nodes := by
  obtain ⟨t, call, ht, hran, hzero⟩ := h.served node hloop
  have hfresh : node ∉ nodes := h.fresh node (by rw [hloop]; rfl)
  have honly {t' : τ} {pc : CallPc ν α} (hpc : frame pc = some node) (ht' : s.caller t' = pc) :
      pc = .waiting call (s.cb node) node := by
    cases h.frames t t' node (ht ▸ rfl) (ht' ▸ hpc)
    exact ht'.symm.trans ht
  refine ⟨hzero, h.queue, ?_, h.frames, ?_, ?_, ?_, ?_, ?_, h.woken, h.returned, h.signalled⟩
  · intro y hy
    cases hy
  · have horder := h.order
    rwa [hloop] at horder
  · intro t' cb y ht'
    obtain ⟨hnext, hcb, hsem⟩ := h.prepared t' cb y ht'
    refine ⟨hnext, hcb, (update_of_ne ?_ ..).trans hsem⟩
    rintro rfl
    cases honly rfl ht'
  · intro i y hi
    have hmem : y ∈ nodes := List.mem_of_getElem? hi
    obtain ⟨t', ht', hsem⟩ := h.queued i y (by rw [hloop]; exact hi)
    refine ⟨t', ht', (update_of_ne ?_ ..).trans hsem⟩
    rintro rfl
    exact hfresh hmem
  · intro y hy
    cases hy
  · intro t' call' cb y ht'
    dsimp only
    by_cases hy : y = node
    · subst hy
      cases honly rfl ht'
      exact .inr ⟨update_self .., hran⟩
    · rw [update_of_ne hy]
      refine (h.waiting t' call' cb y ht').imp_left fun hmem => ?_
      rw [hloop] at hmem
      exact (List.mem_cons.mp hmem).resolve_left hy

omit [DecidableEq τ] [DecidableEq ν] in
/-- The loop does not find the queue ended where nodes are linked. -/
theorem Inv.eq_cons (h : Inv s nodes) {node : ν} (hhead : s.syncCbQueue = some node) :
    ∃ rest, nodes = node :: rest := by
  rw [h.queue.head_eq] at hhead
  cases nodes with
  | nil => cases hhead
  | cons first rest =>
    cases hhead
    exact ⟨rest, rfl⟩

theorem inv_step {event : Event τ ν α} (h : Inv s nodes) (hapart : Apart s event)
    (hstep : step s event = some s') : ∃ nodes, Inv s' nodes := by
  cases event with
  | prepare t cb node =>
    dsimp only [step] at hstep
    split at hstep
    · cases hstep
      exact ⟨nodes, h.prepare ‹_› hapart⟩
    · cases hstep
  | link t =>
    dsimp only [step] at hstep
    split at hstep
    · cases hstep
      exact ⟨_, h.link ‹_›⟩
    · cases hstep
  | wake t =>
    dsimp only [step] at hstep
    split at hstep
    · rename_i call cb node hcaller
      split at hstep
      · rename_i count hsem
        cases hstep
        have hnot : s.sem node ≠ some 0 := by
          rw [hsem]
          simp
        have haway := h.away (t := t) node (hcaller ▸ rfl) fun _ _ _ => hnot
        have hran := ((h.waiting t call cb node hcaller).resolve_left haway).2
        refine ⟨nodes, h.own node (hcaller ▸ rfl) haway ?_ ?_ ?_ ?_ _ h.returned⟩
        · rintro x ⟨⟩
          rfl
        · rintro c ⟨⟩
        · rintro call' c ⟨⟩
        · rintro call' c ⟨⟩
          exact hran
      · cases hstep
    · cases hstep
  | finish t =>
    dsimp only [step] at hstep
    split at hstep
    · rename_i call cb node hcaller
      cases hstep
      have haway := h.away (t := t) node (hcaller ▸ rfl) fun call' c ht => by
        rw [hcaller] at ht
        cases ht
      refine ⟨nodes, h.own node (hcaller ▸ rfl) haway ?_ ?_ ?_ ?_ none ?_⟩
      · rintro x ⟨⟩
      · rintro c ⟨⟩
      · rintro call' c ⟨⟩
      · rintro call' c ⟨⟩
      · intro call' c hmem
        rcases List.mem_append.mp hmem with hold | hnew
        · exact h.returned call' c hold
        · cases List.mem_singleton.mp hnew
          exact h.woken t call cb node hcaller
    · cases hstep
  | reuse node next cb =>
    cases hstep
    exact ⟨nodes, h.reuse next cb hapart⟩
  | unlink =>
    dsimp only [step] at hstep
    split at hstep
    · rename_i node hloop hhead
      cases hstep
      obtain ⟨rest, rfl⟩ := h.eq_cons hhead
      exact ⟨rest, h.unlink hloop⟩
    · cases hstep
  | run =>
    dsimp only [step] at hstep
    split at hstep
    · cases hstep
      exact ⟨nodes, h.run ‹_›⟩
    · cases hstep
  | signal =>
    dsimp only [step] at hstep
    split at hstep
    · rename_i node hloop
      obtain ⟨hzero, hinv⟩ := h.signal hloop
      rw [hzero] at hstep
      cases hstep
      exact ⟨nodes, hinv⟩
    · cases hstep

/-! ### The numbers of the calls -/

def number : CallPc ν α → Option Nat
  | .waiting call _ _ | .woken call _ _ => some call
  | _ => none

/-- A number is that of one call, which has not returned, or of one that has. -/
structure Numbered (s : Ada τ ν α) : Prop where
  callers : ∀ t t' call, number (s.caller t) = some call → number (s.caller t') = some call → t = t'
  pending : ∀ t call, number (s.caller t) = some call →
    call < s.linked.length ∧ call ∉ s.returned.map Prod.fst
  returned : ∀ call ∈ s.returned.map Prod.fst, call < s.linked.length
  once : (s.returned.map Prod.fst).Nodup

omit [DecidableEq ν] in
/-- A caller gets the number it has, or a new one, or none. -/
theorem Numbered.caller (h : Numbered s) {t : τ} (pc : CallPc ν α) (linked : List α)
    (hlength : s.linked.length ≤ linked.length)
    (hpc : ∀ call, number pc = some call →
      number (s.caller t) = some call ∨ s.linked.length ≤ call ∧ call < linked.length) :
    Numbered { s with caller := update s.caller t pc, linked } where
  callers := by
    have hself {t' : τ} {call : Nat} (hne : t' ≠ t) (hself : number pc = some call)
        (hother : number (s.caller t') = some call) : False := by
      rcases hpc call hself with hold | ⟨hnew, -⟩
      · exact hne (h.callers t' t call hother hold)
      · exact absurd (h.pending t' call hother).1 hnew.not_gt
    intro t' t'' call ht' ht''
    dsimp only at ht' ht''
    by_cases hsame' : t' = t <;> by_cases hsame'' : t'' = t
    · rw [hsame', hsame'']
    · subst hsame'
      rw [update_self] at ht'
      rw [update_of_ne hsame''] at ht''
      exact (hself hsame'' ht' ht'').elim
    · subst hsame''
      rw [update_self] at ht''
      rw [update_of_ne hsame'] at ht'
      exact (hself hsame' ht'' ht').elim
    · rw [update_of_ne hsame'] at ht'
      rw [update_of_ne hsame''] at ht''
      exact h.callers t' t'' call ht' ht''
  pending := by
    intro t' call ht'
    dsimp only at ht' ⊢
    have hold {t'' : τ} (ht'' : number (s.caller t'') = some call) :
        call < linked.length ∧ call ∉ s.returned.map Prod.fst := by
      obtain ⟨hlt, hnot⟩ := h.pending t'' call ht''
      exact ⟨hlt.trans_le hlength, hnot⟩
    by_cases hsame : t' = t
    · subst hsame
      rw [update_self] at ht'
      rcases hpc call ht' with hbefore | ⟨hnew, hlt⟩
      · exact hold hbefore
      · exact ⟨hlt, fun hmem => (h.returned call hmem).not_ge hnew⟩
    · rw [update_of_ne hsame] at ht'
      exact hold ht'
  returned := fun call hmem => (h.returned call hmem).trans_le hlength
  once := h.once

omit [DecidableEq ν] in
theorem Numbered.finish (h : Numbered s) {t : τ} {call : Nat} {cb : α} {node : ν}
    (hcaller : s.caller t = .woken call cb node) :
    Numbered { s with
      caller := update s.caller t .idle
      returned := s.returned ++ [(call, cb)] } where
  callers := (h.caller (t := t) .idle _ (le_refl _) fun _ h => by cases h).callers
  pending := by
    intro t' call' ht'
    dsimp only at ht' ⊢
    by_cases hsame : t' = t
    · subst hsame
      rw [update_self] at ht'
      cases ht'
    · rw [update_of_ne hsame] at ht'
      obtain ⟨hlt, hnot⟩ := h.pending t' call' ht'
      refine ⟨hlt, ?_⟩
      rw [List.map_append, List.mem_append, List.map_singleton, List.mem_singleton]
      rintro (hold | rfl)
      · exact hnot hold
      · exact hsame (h.callers t' t call' ht' (hcaller ▸ rfl))
  returned := by
    intro call' hmem
    rw [List.map_append, List.mem_append, List.map_singleton, List.mem_singleton] at hmem
    rcases hmem with hold | heq
    · exact h.returned call' hold
    · subst heq
      exact (h.pending t _ (hcaller ▸ rfl)).1
  once := by
    rw [List.map_append, List.map_singleton]
    refine List.nodup_append.mpr ⟨h.once, List.nodup_singleton _, ?_⟩
    intro a ha b hb
    rw [List.mem_singleton.mp hb]
    intro heq
    subst heq
    exact (h.pending t _ (hcaller ▸ rfl)).2 ha

omit [DecidableEq τ] [DecidableEq ν] in
/-- Only the callers and the records of the calls count. -/
theorem Numbered.congr (h : Numbered s) (hcaller : s'.caller = s.caller)
    (hlinked : s'.linked = s.linked) (hreturned : s'.returned = s.returned) : Numbered s' := by
  constructor
  · rw [hcaller]
    exact h.callers
  · rw [hcaller, hlinked, hreturned]
    exact h.pending
  · rw [hlinked, hreturned]
    exact h.returned
  · rw [hreturned]
    exact h.once

theorem numbered_step {event : Event τ ν α} (h : Numbered s) (hstep : step s event = some s') :
    Numbered s' := by
  cases event with
  | prepare t cb node =>
    dsimp only [step] at hstep
    split at hstep
    · cases hstep
      refine (h.caller (t := t) (.prepared cb node) s.linked (le_refl _) ?_).congr
        rfl rfl rfl
      rintro call ⟨⟩
    · cases hstep
  | link t =>
    dsimp only [step] at hstep
    split at hstep
    · rename_i cb node hcaller
      cases hstep
      have hlength : (s.linked ++ [cb]).length = s.linked.length + 1 := List.length_append
      refine (h.caller (t := t) (.waiting s.linked.length cb node)
        (s.linked ++ [cb]) (by omega) ?_).congr rfl rfl (linkNode_keeps s node).2.2.2.2.1
      rintro call ⟨⟩
      exact .inr ⟨le_refl _, by omega⟩
    · cases hstep
  | wake t =>
    dsimp only [step] at hstep
    split at hstep
    · rename_i call cb node hcaller
      split at hstep
      · cases hstep
        refine (h.caller (t := t) (.woken call cb node) s.linked (le_refl _)
          ?_).congr rfl rfl rfl
        rintro call' ⟨⟩
        exact .inl (hcaller ▸ rfl)
      · cases hstep
    · cases hstep
  | finish t =>
    dsimp only [step] at hstep
    split at hstep
    · cases hstep
      exact (h.finish ‹_›).congr rfl rfl rfl
    · cases hstep
  | reuse node next cb =>
    cases hstep
    exact h.congr rfl rfl rfl
  | unlink =>
    dsimp only [step] at hstep
    split at hstep <;> cases hstep
    exact h.congr rfl rfl rfl
  | run =>
    dsimp only [step] at hstep
    split at hstep <;> cases hstep
    exact h.congr rfl rfl rfl
  | signal =>
    dsimp only [step] at hstep
    split at hstep
    · split at hstep <;> cases hstep <;> exact h.congr rfl rfl rfl
    · cases hstep

/-! ### Every run -/

def Good (s : Ada τ ν α) : Prop := (∃ nodes, Inv s nodes) ∧ Numbered s

omit [DecidableEq τ] [DecidableEq ν] in
theorem good_alAdaInit (next : ν → Option ν) (cb : ν → α) :
    Good (alAdaInit next cb : Ada τ ν α) := by
  refine ⟨⟨[], inv_alAdaInit next cb⟩, ?_, ?_, ?_, List.nodup_nil⟩
  · intro t t' call ht
    cases ht
  · intro t call ht
    cases ht
  · simp [alAdaInit]

theorem good_step {event : Event τ ν α} (h : Good s) (hapart : Apart s event)
    (hstep : step s event = some s') : Good s' := by
  obtain ⟨⟨nodes, hinv⟩, hnumbered⟩ := h
  exact ⟨inv_step hinv hapart hstep, numbered_step hnumbered hstep⟩

/-- In every run the synchronous calls are served in their order, each returns with its
callback run, and the nodes in the queue are on stacks that still stand. -/
theorem synchronous {next : ν → Option ν} {cb : ν → α} {events : List (Event τ ν α)}
    (hrun : Run step Apart (alAdaInit next cb) events s) : Synchronous s := by
  obtain ⟨⟨nodes, h⟩, hnumbered⟩ := hrun.invariant (good_alAdaInit next cb)
    fun _ _ _ h hapart hstep => good_step h hapart hstep
  refine ⟨?_, h.returned, hnumbered.once, ⟨nodes, h.queue.linked, fun node hmem => ?_⟩,
    h.signalled⟩
  · rw [h.order]
    exact List.prefix_append ..
  · obtain ⟨t, call, ht, -⟩ := h.caller_of_mem hmem
    exact ⟨t, call, ht⟩

/-! ### Two callers -/

instance [Fintype τ] (s : Ada τ ν α) : DecidablePred (Apart s)
  | .prepare _ _ node | .reuse node _ _ =>
    inferInstanceAs (Decidable (∀ t, frame (s.caller t) ≠ some node))
  | .link _ | .wake _ | .finish _ | .unlink | .run | .signal => .isTrue trivial

/-- The one that takes the lock first is served first, and its node is used for something
else afterwards. -/
def twoCallers : List (Event Bool Bool Nat) :=
  [.prepare false 5 false, .prepare true 7 true, .link true, .link false, .unlink, .run, .signal,
    .unlink, .wake true, .finish true, .reuse true (some true) 0, .run, .signal, .wake false,
    .finish false]

theorem synchronous_twoCallers : ∃ s, exec step (alAdaInit (fun _ => none) fun _ => 0) twoCallers =
    some s ∧ s.returned = [(0, 7), (1, 5)] ∧ Synchronous s := by
  have hexec : (exec (guarded step fun s event => decide (Apart s event))
      (alAdaInit (fun _ => none) fun _ => 0) twoCallers).any fun s =>
        decide (s.returned = [(0, 7), (1, 5)]) := by decide
  obtain ⟨s, hs, hreturned⟩ := (Option.any_eq_true _ _).mp hexec
  have hrun : Run step Apart _ twoCallers s :=
    (Run.of_exec_guarded hs).mono fun _ _ hapart => of_decide_eq_true hapart
  exact ⟨s, hrun.exec_eq, of_decide_eq_true hreturned, synchronous hrun⟩

end Sv6x66.Ayla.SyncCall
