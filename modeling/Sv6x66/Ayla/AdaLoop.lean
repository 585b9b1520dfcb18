import Mathlib.Data.List.FinRange
import Mathlib.Logic.Function.Basic
import Sv6x66.Lib.Run

/-! The sockets of `al_ada_main_loop`. A registration of a socket that has one already is
parked in the `tmp_` members until the next iteration, and the sets of `select` are tested
with the numbers the slots hold by then. `fd_lock` is held while the sets are built and
from the return of `select` to the end of the scan, the calls of the handlers included;
`al_ada_add_socket` takes it, `al_ada_remove_socket` and `al_ada_enable_write` do not. -/
namespace Sv6x66.Ayla.AdaLoop
open Sv6x66.Lib Function

variable {η α : Type*}

def maxSelectSockets : Nat := 3

inductive Kind where
  | read
  | write
  | exception
  deriving DecidableEq

/-- `handler` are `ada_read`, `ada_write` and `exception`, `tmp` their `tmp_` members. -/
structure FdInfo (η α : Type*) where
  fd : Int
  handler : Kind → Option η
  arg : Option α
  enableRead : Bool
  enableWrite : Bool
  tmp : Kind → Option η
  tmpArg : Option α

/-- The arguments of an `al_ada_add_socket` that found a slot, and how many there were
before it. -/
structure Registration (η α : Type*) where
  number : Nat
  handler : Kind → Option η
  arg : Option α

/-- Who calls: a handler or a callback of the loop, or another task. -/
inductive Caller where
  | loop
  | task
  deriving DecidableEq

/-- Where the loop stands. -/
inductive LoopPc where
  | top
  | select
  /-- In front of the test of a slot for a set. -/
  | scan (i : Fin maxSelectSockets) (kind : Kind)
  | handling (i : Fin maxSelectSockets) (kind : Kind)
  /-- A handler waits for the lock its own task holds. -/
  | blocked
  /-- A handler that is `NULL` was called. -/
  | crashed
  deriving DecidableEq

/-- `fds` are the three sets of `select`; `fd_max` only bounds what it looks at. `fdLock` is
the lock between the steps: the other critical sections are steps of their own. The rest
records the registrations: the latest of each registered socket, how many there were, how
many when the sets were built, and whose socket was put in a set. -/
structure Ada (η α : Type*) where
  fdInfos : Fin maxSelectSockets → FdInfo η α
  fds : Kind → Int → Bool
  fdLock : Bool
  errTimes : Nat
  loop : LoopPc
  latest : Int → Option (Registration η α)
  registrations : Nat
  builtAt : Nat
  given : Kind → Int → Option Nat

def alAdaSearchFdInfo (s : Ada η α) (socket : Int) (findEmpty : Bool) :
    Option (Fin maxSelectSockets) :=
  match (List.finRange maxSelectSockets).find? fun i => (s.fdInfos i).fd = socket with
  | some i => some i
  | none =>
    if findEmpty then (List.finRange maxSelectSockets).find? fun i => (s.fdInfos i).fd < 0
    else none

def setFdInfo (s : Ada η α) (i : Fin maxSelectSockets) (info : FdInfo η α) : Ada η α :=
  { s with fdInfos := update s.fdInfos i info }

@[simp] theorem setFdInfo_self (s : Ada η α) (i : Fin maxSelectSockets) (info : FdInfo η α) :
    (setFdInfo s i info).fdInfos i = info := by
  simp [setFdInfo]

theorem setFdInfo_of_ne (s : Ada η α) {i j : Fin maxSelectSockets} (hj : j ≠ i)
    (info : FdInfo η α) : (setFdInfo s i info).fdInfos j = s.fdInfos j := by
  simp [setFdInfo, hj]

/-- A number below 0 is no socket. -/
def register (s : Ada η α) (socket : Int) (handler : Kind → Option η) (arg : Option α) :
    Ada η α :=
  if 0 ≤ socket then
    { s with
      latest := update s.latest socket (some ⟨s.registrations, handler, arg⟩)
      registrations := s.registrations + 1 }
  else s

def alAdaEnableWrite (s : Ada η α) (socket : Int) (enable : Bool) : Ada η α :=
  match alAdaSearchFdInfo s socket false with
  | some i => setFdInfo s i { s.fdInfos i with enableWrite := enable }
  | none => s

def alAdaRemoveSocket (s : Ada η α) (socket : Int) : Ada η α :=
  match alAdaSearchFdInfo s socket false with
  | some i =>
    { setFdInfo s i { s.fdInfos i with fd := -1 } with latest := update s.latest socket none }
  | none => s

def alAdaAddSocket (s : Ada η α) (socket : Int) (handler : Kind → Option η) (arg : Option α) :
    Ada η α :=
  match alAdaSearchFdInfo s socket true with
  | none => s
  | some i =>
    if 0 ≤ (s.fdInfos i).fd then
      register (setFdInfo s i { s.fdInfos i with tmp := handler, tmpArg := arg })
        socket handler arg
    else
      register (setFdInfo s i
        { fd := socket
          handler := handler
          arg := arg
          enableRead := true
          enableWrite := false
          tmp := fun _ => none
          tmpArg := none }) socket handler arg

/-- `update_handler` of the three handlers and the argument. -/
def updateHandlers (info : FdInfo η α) : FdInfo η α :=
  if 0 ≤ info.fd then
    { info with
      handler := fun kind => (info.tmp kind).or (info.handler kind)
      arg := info.tmpArg.or info.arg
      tmp := fun _ => none
      tmpArg := none }
  else info

def enabled (info : FdInfo η α) : Kind → Bool
  | .read => info.enableRead
  | .write => info.enableWrite
  | .exception => true

/-- `FD_ZERO` and `FD_SET`: no set holds a number below 0. -/
def inSet (s : Ada η α) (kind : Kind) (fd : Int) : Bool :=
  (List.finRange maxSelectSockets).any fun i =>
    (s.fdInfos i).fd = fd ∧ 0 ≤ fd ∧ ((s.fdInfos i).handler kind).isSome ∧
      enabled (s.fdInfos i) kind

def buildSets (s : Ada η α) : Ada η α :=
  let s := { s with fdInfos := fun i => updateHandlers (s.fdInfos i) }
  { s with
    fds := inSet s
    loop := .select
    builtAt := s.registrations
    given := fun kind fd =>
      if inSet s kind fd then (s.latest fd).map Registration.number else none }

/-- What `select` leaves of the sets; it can only take sockets out of them. -/
def select (s : Ada η α) : Option (Kind → Int → Bool) → Option (Ada η α)
  | none =>
    -- the assertion on `err_times`
    if s.errTimes + 1 < 5 then some { s with errTimes := s.errTimes + 1, loop := .top }
    else none
  | some ready => some { s with
    fds := fun kind fd => s.fds kind fd && ready kind fd
    fdLock := true
    errTimes := 0
    loop := .scan ⟨0, by decide⟩ .read }

/-- `FD_ISSET` of a set without numbers below 0: it takes bit `n & 7` of byte `n / 8`, and
for -1 that is the bit of socket 7. -/
def fdIsset (fds : Int → Bool) (n : Int) : Bool := fds (n.tdiv 8 * 8 + n % 8)

def nextSlot (i : Fin maxSelectSockets) : LoopPc :=
  if h : i.val + 1 < maxSelectSockets then .scan ⟨i.val + 1, h⟩ .read else .top

/-- The test behind this one. -/
def nextTest (i : Fin maxSelectSockets) : Kind → LoopPc
  | .read => .scan i .write
  | .write => .scan i .exception
  | .exception => nextSlot i

/-- The scan goes on, or it is over and the lock is given back. -/
def goTo (s : Ada η α) (loop : LoopPc) : Ada η α :=
  { s with loop, fdLock := decide (loop ≠ .top) }

structure Call (η α : Type*) where
  kind : Kind
  socket : Int
  handler : Option η
  arg : Option α

/-- The test of `fd` that the loop makes once for a slot. -/
def Passed (s : Ada η α) (i : Fin maxSelectSockets) (kind : Kind) : Prop :=
  kind = .read ∧ (s.fdInfos i).fd < 0

instance (s : Ada η α) (i : Fin maxSelectSockets) (kind : Kind) : Decidable (Passed s i kind) :=
  inferInstanceAs (Decidable (_ ∧ _))

/-- The call the loop is about to make, if any. -/
def nextCall (s : Ada η α) : Option (Call η α) :=
  match s.loop with
  | .scan i kind =>
    if ¬ Passed s i kind ∧ fdIsset (s.fds kind) (s.fdInfos i).fd then
      some ⟨kind, (s.fdInfos i).fd, (s.fdInfos i).handler kind, (s.fdInfos i).arg⟩
    else none
  | _ => none

def dispatch (s : Ada η α) : Option (Ada η α) :=
  match s.loop with
  | .scan i kind =>
    match nextCall s with
    | some call =>
      some { s with loop := if call.handler.isSome then .handling i kind else .crashed }
    | none => some (goTo s (if Passed s i kind then nextSlot i else nextTest i kind))
  | _ => none

/-- The handler returns; the scan ends where it took its own slot away. -/
def handlerReturns (s : Ada η α) : Option (Ada η α) :=
  match s.loop with
  | .handling i kind =>
    some (goTo s (if (s.fdInfos i).fd < 0 then .top else nextTest i kind))
  | _ => none

/-- Whether code of the caller can run: that of the loop runs in its handlers, and in its
timers and callbacks between the iterations. -/
def runs (s : Ada η α) : Caller → Bool
  | .loop =>
    match s.loop with
    | .top | .handling .. => true
    | _ => false
  | .task => true

/-- `al_ada_add_socket` from its lock on. Another task waits while the lock is held, and
registers when it gets it; the task of the loop would wait for itself. -/
def addSocketLocked (s : Ada η α) (caller : Caller) (socket : Int) (handler : Kind → Option η)
    (arg : Option α) : Option (Ada η α) :=
  if s.fdLock then
    match caller with
    | .loop => some { s with loop := .blocked }
    | .task => none
  else some (alAdaAddSocket s socket handler arg)

/-- The calls of handlers, of callbacks and of other tasks, and the steps of the loop. -/
inductive Event (η α : Type*) where
  | addSocket (caller : Caller) (socket : Int) (handler : Kind → Option η) (arg : Option α)
  | removeSocket (socket : Int)
  | enableWrite (socket : Int) (enable : Bool)
  | build
  | select (outcome : Option (Kind → Int → Bool))
  | dispatch
  | handlerReturns

def step (s : Ada η α) (event : Event η α) : Option (Ada η α) :=
  if s.loop = .crashed then none
  else
    match event with
    | .addSocket caller socket handler arg =>
      if runs s caller then addSocketLocked s caller socket handler arg else none
    | .removeSocket socket => some (alAdaRemoveSocket s socket)
    | .enableWrite socket enable => some (alAdaEnableWrite s socket enable)
    | .build => if s.loop = .top then some (buildSets s) else none
    | .select outcome => if s.loop = .select then AdaLoop.select s outcome else none
    | .dispatch => AdaLoop.dispatch s
    | .handlerReturns => AdaLoop.handlerReturns s

/-- The slots after the `memset` of `al_ada_init`. -/
def noSockets : Ada η α where
  fdInfos := fun _ => ⟨-1, fun _ => none, none, false, false, fun _ => none, none⟩
  fds := fun _ _ => false
  fdLock := false
  errTimes := 0
  loop := .top
  latest := fun _ => none
  registrations := 0
  builtAt := 0
  given := fun _ _ => none

/-- `fd_wakeup[0]` is 0 and is read by `wakeup_drop`. -/
def alAdaInit (wakeupDrop : η) : Ada η α :=
  alAdaAddSocket noSockets 0 (fun kind => if kind = .read then some wakeupDrop else none) none

variable {s t : Ada η α}

/-! ### What a call does to the slots -/

theorem search_some {socket : Int} {findEmpty : Bool} {i : Fin maxSelectSockets}
    (h : alAdaSearchFdInfo s socket findEmpty = some i) :
    (s.fdInfos i).fd = socket ∨ findEmpty ∧ (s.fdInfos i).fd < 0 ∧
      ∀ j, (s.fdInfos j).fd ≠ socket := by
  unfold alAdaSearchFdInfo at h
  split at h
  · rename_i found hfound
    cases h
    exact .inl (by simpa using List.find?_some hfound)
  · rename_i hnone
    split at h
    · rename_i hempty
      refine .inr ⟨hempty, by simpa using List.find?_some h, fun j hj => ?_⟩
      exact absurd (decide_eq_true hj) (List.find?_eq_none.mp hnone j (List.mem_finRange j))
    · cases h

/-- A socket is removed from its slot, if it has one. -/
theorem removeSocket_cases (s : Ada η α) (socket : Int) :
    alAdaRemoveSocket s socket = s ∨ ∃ i, (s.fdInfos i).fd = socket ∧
      alAdaRemoveSocket s socket =
        { setFdInfo s i { s.fdInfos i with fd := -1 } with
          latest := update s.latest socket none } := by
  unfold alAdaRemoveSocket
  cases hsearch : alAdaSearchFdInfo s socket false with
  | none => exact .inl rfl
  | some i =>
    obtain hfd | ⟨hempty, -⟩ := search_some hsearch
    · exact .inr ⟨i, hfd, rfl⟩
    · cases hempty

/-- A registration is parked in the slot of its socket, or takes a free one. -/
theorem addSocket_cases (s : Ada η α) (socket : Int) (handler : Kind → Option η)
    (arg : Option α) :
    alAdaAddSocket s socket handler arg = s ∨
      (∃ i, (s.fdInfos i).fd = socket ∧ 0 ≤ socket ∧ alAdaAddSocket s socket handler arg =
        register (setFdInfo s i { s.fdInfos i with tmp := handler, tmpArg := arg })
          socket handler arg) ∨
      ∃ i info, (s.fdInfos i).fd < 0 ∧ (0 ≤ socket → ∀ j, (s.fdInfos j).fd ≠ socket) ∧
        alAdaAddSocket s socket handler arg =
          register (setFdInfo s i info) socket handler arg ∧
        info.fd = socket ∧ info.handler = handler ∧ info.arg = arg ∧
        (info.tmp = fun _ => none) ∧ info.tmpArg = none := by
  unfold alAdaAddSocket
  cases hsearch : alAdaSearchFdInfo s socket true with
  | none => exact .inl rfl
  | some i =>
    dsimp only
    by_cases hused : 0 ≤ (s.fdInfos i).fd
    · rw [if_pos hused]
      obtain hfd | ⟨-, hfree, -⟩ := search_some hsearch
      · exact .inr (.inl ⟨i, hfd, hfd ▸ hused, rfl⟩)
      · exact absurd hused hfree.not_ge
    · rw [if_neg hused]
      refine .inr (.inr ⟨i, _, not_le.mp hused, ?_, rfl, rfl, rfl, rfl, rfl, rfl⟩)
      intro hsocket
      obtain hfd | ⟨-, -, hother⟩ := search_some hsearch
      · exact absurd (hfd ▸ hsocket) hused
      · exact hother

/-! ### The invariant -/

/-- The slot holds what its latest registration brought, unless it was `NULL`. -/
structure Holds (info : FdInfo η α) (r : Registration η α) : Prop where
  handler : ∀ kind h, r.handler kind = some h →
    (info.tmp kind).or (info.handler kind) = some h
  arg : ∀ a, r.arg = some a → info.tmpArg.or info.arg = some a

/-- Nothing is parked. -/
structure Merged (info : FdInfo η α) : Prop where
  tmp : ∀ kind, info.tmp kind = none
  tmpArg : info.tmpArg = none

structure Inv (s : Ada η α) : Prop where
  unique : ∀ i j, 0 ≤ (s.fdInfos i).fd → (s.fdInfos i).fd = (s.fdInfos j).fd → i = j
  registered : ∀ i, 0 ≤ (s.fdInfos i).fd → ∃ r, s.latest (s.fdInfos i).fd = some r
  holds : ∀ i r, 0 ≤ (s.fdInfos i).fd → s.latest (s.fdInfos i).fd = some r →
    Holds (s.fdInfos i) r
  merged : ∀ i r, 0 ≤ (s.fdInfos i).fd → s.latest (s.fdInfos i).fd = some r →
    r.number < s.builtAt → Merged (s.fdInfos i)
  socket : ∀ socket r, s.latest socket = some r → 0 ≤ socket
  number : ∀ socket r, s.latest socket = some r → r.number < s.registrations
  builtAt : s.builtAt ≤ s.registrations
  given : ∀ kind fd, s.fds kind fd = true → 0 ≤ fd ∧ ∃ n < s.builtAt,
    s.given kind fd = some n ∧ ∀ r, s.latest fd = some r → r.number < s.builtAt → r.number = n

/-- What the invariant reads of a slot. -/
structure SameSlot (info info' : FdInfo η α) : Prop where
  fd : info'.fd = info.fd
  handler : info'.handler = info.handler
  arg : info'.arg = info.arg
  tmp : info'.tmp = info.tmp
  tmpArg : info'.tmpArg = info.tmpArg

/-- The slots in use keep their sockets with what these registered; slots may be freed,
registrations and the sets may lose sockets, and the loop may go on. -/
theorem Inv.frame (h : Inv s)
    (hslot : ∀ i, 0 ≤ (t.fdInfos i).fd → SameSlot (s.fdInfos i) (t.fdInfos i) ∧
      t.latest (s.fdInfos i).fd = s.latest (s.fdInfos i).fd)
    (hlatest : ∀ fd r, t.latest fd = some r → s.latest fd = some r)
    (hregistrations : t.registrations = s.registrations)
    (hbuiltAt : t.builtAt = s.builtAt) (hgiven : t.given = s.given)
    (hfds : ∀ kind fd, t.fds kind fd = true → s.fds kind fd = true) : Inv t where
  unique := by
    intro i j hfd heq
    have hi := (hslot i hfd).1.fd
    have hj := (hslot j (heq ▸ hfd)).1.fd
    exact h.unique i j (hi ▸ hfd) (hi.symm.trans (heq.trans hj))
  registered := by
    intro i hfd
    obtain ⟨hsame, hkept⟩ := hslot i hfd
    rw [hsame.fd] at hfd ⊢
    rw [hkept]
    exact h.registered i hfd
  holds := by
    intro i r hfd hr
    obtain ⟨hsame, hkept⟩ := hslot i hfd
    rw [hsame.fd] at hfd hr
    have hold := h.holds i r hfd (hkept ▸ hr)
    refine ⟨fun kind g hg => ?_, fun a ha => ?_⟩
    · rw [hsame.tmp, hsame.handler]
      exact hold.handler kind g hg
    · rw [hsame.tmpArg, hsame.arg]
      exact hold.arg a ha
  merged := by
    intro i r hfd hr hnumber
    obtain ⟨hsame, hkept⟩ := hslot i hfd
    rw [hsame.fd] at hfd hr
    rw [hbuiltAt] at hnumber
    have hmerged := h.merged i r hfd (hkept ▸ hr) hnumber
    refine ⟨fun kind => ?_, ?_⟩
    · rw [hsame.tmp]
      exact hmerged.tmp kind
    · rw [hsame.tmpArg]
      exact hmerged.tmpArg
  socket := fun fd r hr => h.socket fd r (hlatest fd r hr)
  number := by
    intro fd r hr
    rw [hregistrations]
    exact h.number fd r (hlatest fd r hr)
  builtAt := by
    rw [hbuiltAt, hregistrations]
    exact h.builtAt
  given := by
    intro kind fd hset
    rw [hbuiltAt, hgiven]
    obtain ⟨hfd, n, hn, hn', hsame⟩ := h.given kind fd (hfds kind fd hset)
    exact ⟨hfd, n, hn, hn', fun r hr => hsame r (hlatest fd r hr)⟩

theorem sameSlot_refl (info : FdInfo η α) : SameSlot info info := ⟨rfl, rfl, rfl, rfl, rfl⟩

theorem Inv.enableWrite (h : Inv s) (socket : Int) (enable : Bool) :
    Inv (alAdaEnableWrite s socket enable) := by
  unfold alAdaEnableWrite
  split
  · rename_i i _
    refine h.frame (fun j _ => ⟨?_, rfl⟩) (fun _ _ hr => hr) rfl rfl rfl fun _ _ hset => hset
    by_cases hj : j = i
    · subst hj
      rw [setFdInfo_self]
      exact ⟨rfl, rfl, rfl, rfl, rfl⟩
    · rw [setFdInfo_of_ne s hj]
      exact sameSlot_refl _
  · exact h

theorem Inv.removeSocket (h : Inv s) (socket : Int) : Inv (alAdaRemoveSocket s socket) := by
  obtain heq | ⟨i, hfd, heq⟩ := removeSocket_cases s socket
  · rwa [heq]
  rw [heq]
  refine h.frame (fun j hj => ?_) (fun fd r hr => ?_) rfl rfl rfl fun _ _ hset => hset
  · -- the slots that still hold a socket are the others, with other sockets
    have hji : j ≠ i := by
      rintro rfl
      dsimp only at hj
      rw [setFdInfo_self] at hj
      exact absurd hj (show ¬ (0 : Int) ≤ -1 by decide)
    have hsame := setFdInfo_of_ne s hji { s.fdInfos i with fd := -1 }
    dsimp only at hj ⊢
    rw [hsame] at hj ⊢
    refine ⟨sameSlot_refl _, update_of_ne (fun hsocket => ?_) _ _⟩
    exact hji (h.unique j i hj (hsocket.trans hfd.symm))
  · dsimp only at hr
    by_cases hfd' : fd = socket
    · rw [hfd', update_self] at hr
      cases hr
    · rwa [update_of_ne hfd'] at hr

/-- The slot of a socket takes over a registration. -/
theorem Inv.register (h : Inv s) {i : Fin maxSelectSockets} {info : FdInfo η α} {socket : Int}
    {handler : Kind → Option η} {arg : Option α} (hsocket : 0 ≤ socket) (hfd : info.fd = socket)
    (hother : ∀ j, j ≠ i → (s.fdInfos j).fd ≠ socket)
    (hholds : Holds info ⟨s.registrations, handler, arg⟩) :
    Inv (register (setFdInfo s i info) socket handler arg) := by
  have hregister : AdaLoop.register (setFdInfo s i info) socket handler arg =
      { setFdInfo s i info with
        latest := update s.latest socket (some ⟨s.registrations, handler, arg⟩)
        registrations := s.registrations + 1 } := if_pos hsocket
  rw [hregister]
  have hlater : ∀ fd r, update s.latest socket (some ⟨s.registrations, handler, arg⟩) fd = some r →
      r.number < s.builtAt → s.latest fd = some r := by
    intro fd r hr hnumber
    by_cases hfd' : fd = socket
    · subst hfd'
      rw [update_self] at hr
      cases hr
      exact absurd h.builtAt hnumber.not_ge
    · rwa [update_of_ne hfd'] at hr
  have hslot : ∀ j, j ≠ i → 0 ≤ ((setFdInfo s i info).fdInfos j).fd →
      (setFdInfo s i info).fdInfos j = s.fdInfos j ∧ 0 ≤ (s.fdInfos j).fd ∧
        update s.latest socket (some ⟨s.registrations, handler, arg⟩) (s.fdInfos j).fd =
          s.latest (s.fdInfos j).fd := by
    intro j hji hj
    have hsame := setFdInfo_of_ne s hji info
    rw [hsame] at hj
    exact ⟨hsame, hj, update_of_ne (hother j hji) _ _⟩
  have hself := setFdInfo_self s i info
  constructor
  · intro j k hj hjk
    dsimp only at hj hjk
    by_cases hji : j = i
    · by_cases hki : k = i
      · exact hji.trans hki.symm
      · rw [hji, hself, setFdInfo_of_ne s hki, hfd] at hjk
        exact absurd hjk.symm (hother k hki)
    · rw [setFdInfo_of_ne s hji] at hj hjk
      by_cases hki : k = i
      · rw [hki, hself, hfd] at hjk
        exact absurd hjk (hother j hji)
      · rw [setFdInfo_of_ne s hki] at hjk
        exact h.unique j k hj hjk
  · intro j hj
    by_cases hji : j = i
    · dsimp only
      rw [hji, hself, hfd, update_self]
      exact ⟨_, rfl⟩
    · obtain ⟨hsame, hfd', hkept⟩ := hslot j hji hj
      dsimp only
      rw [hsame, hkept]
      exact h.registered j hfd'
  · intro j r hj hr
    by_cases hji : j = i
    · dsimp only at hr ⊢
      rw [hji, hself, hfd, update_self] at hr
      cases hr
      rw [hji, hself]
      exact hholds
    · obtain ⟨hsame, hfd', hkept⟩ := hslot j hji hj
      dsimp only at hr ⊢
      rw [hsame] at hr ⊢
      exact h.holds j r hfd' (hkept ▸ hr)
  · intro j r hj hr hnumber
    have hold := hlater _ r hr hnumber
    by_cases hji : j = i
    · dsimp only at hr
      rw [hji, hself, hfd, update_self] at hr
      cases hr
      exact absurd h.builtAt hnumber.not_ge
    · obtain ⟨hsame, hfd', -⟩ := hslot j hji hj
      dsimp only at hold ⊢
      rw [hsame] at hold ⊢
      exact h.merged j r hfd' hold hnumber
  · intro fd r hr
    dsimp only at hr
    by_cases hfd' : fd = socket
    · exact hfd' ▸ hsocket
    · rw [update_of_ne hfd'] at hr
      exact h.socket fd r hr
  · intro fd r hr
    dsimp only at hr ⊢
    by_cases hfd' : fd = socket
    · rw [hfd', update_self] at hr
      cases hr
      exact Nat.lt_succ_self _
    · rw [update_of_ne hfd'] at hr
      exact (h.number fd r hr).trans (Nat.lt_succ_self _)
  · exact h.builtAt.trans (Nat.le_succ _)
  · intro kind fd hset
    obtain ⟨hfd', n, hn, hgiven, hsame⟩ := h.given kind fd hset
    exact ⟨hfd', n, hn, hgiven, fun r hr hnumber => hsame r (hlater fd r hr hnumber) hnumber⟩

/-- A free slot may hold anything. -/
theorem Inv.free (h : Inv s) {i : Fin maxSelectSockets} {info : FdInfo η α}
    (hfd : info.fd < 0) : Inv (setFdInfo s i info) := by
  refine h.frame (fun j hj => ⟨?_, rfl⟩) (fun _ _ hr => hr) rfl rfl rfl fun _ _ hset => hset
  by_cases hji : j = i
  · rw [hji, setFdInfo_self] at hj
    exact absurd hj hfd.not_ge
  · rw [setFdInfo_of_ne s hji]
    exact sameSlot_refl _

theorem Inv.addSocket (h : Inv s) (socket : Int) (handler : Kind → Option η) (arg : Option α) :
    Inv (alAdaAddSocket s socket handler arg) := by
  obtain heq | ⟨i, hfd, hsocket, heq⟩ | ⟨i, info, hfree, hnew, heq, hfd, hhandler, harg, htmp,
    htmpArg⟩ := addSocket_cases s socket handler arg
  · rwa [heq]
  · rw [heq]
    refine h.register hsocket hfd (fun j hji hj => ?_) ⟨fun kind g hg => ?_, fun a ha => ?_⟩
    · exact hji (h.unique j i (hj ▸ hsocket) (hj.trans hfd.symm))
    · exact congrArg (Option.or · _) hg
    · exact congrArg (Option.or · _) ha
  · rw [heq]
    by_cases hsocket : 0 ≤ socket
    · refine h.register hsocket hfd (fun j _ => hnew hsocket j) ⟨fun kind g hg => ?_, fun a ha => ?_⟩
      · rw [htmp, hhandler, Option.none_or]
        exact hg
      · rw [htmpArg, harg, Option.none_or]
        exact ha
    · have hregister : AdaLoop.register (setFdInfo s i info) socket handler arg =
          setFdInfo s i info := if_neg hsocket
      rw [hregister]
      exact h.free (hfd ▸ not_le.mp hsocket)

theorem updateHandlers_fd (info : FdInfo η α) : (updateHandlers info).fd = info.fd := by
  unfold updateHandlers
  split <;> rfl

theorem merged_updateHandlers {info : FdInfo η α} (hfd : 0 ≤ info.fd) :
    Merged (updateHandlers info) := by
  rw [updateHandlers, if_pos hfd]
  exact ⟨fun _ => rfl, rfl⟩

theorem Holds.updateHandlers {info : FdInfo η α} {r : Registration η α} (h : Holds info r)
    (hfd : 0 ≤ info.fd) : Holds (updateHandlers info) r := by
  rw [AdaLoop.updateHandlers, if_pos hfd]
  refine ⟨fun kind g hg => ?_, fun a ha => ?_⟩
  · exact (Option.none_or ..).trans (h.handler kind g hg)
  · exact (Option.none_or ..).trans (h.arg a ha)

theorem inSet_iff {kind : Kind} {fd : Int} :
    inSet s kind fd = true ↔ ∃ i, (s.fdInfos i).fd = fd ∧ 0 ≤ fd ∧
      ((s.fdInfos i).handler kind).isSome ∧ enabled (s.fdInfos i) kind := by
  simp [inSet, List.any_eq_true]

theorem Inv.buildSets (h : Inv s) : Inv (buildSets s) := by
  constructor
  · intro i j hi hij
    dsimp only [AdaLoop.buildSets] at hi hij
    rw [updateHandlers_fd] at hi hij
    rw [updateHandlers_fd] at hij
    exact h.unique i j hi hij
  · intro i hi
    dsimp only [AdaLoop.buildSets] at hi ⊢
    rw [updateHandlers_fd] at hi ⊢
    exact h.registered i hi
  · intro i r hi hr
    dsimp only [AdaLoop.buildSets] at hi hr ⊢
    rw [updateHandlers_fd] at hi hr
    exact (h.holds i r hi hr).updateHandlers hi
  · intro i r hi _ _
    dsimp only [AdaLoop.buildSets] at hi ⊢
    rw [updateHandlers_fd] at hi
    exact merged_updateHandlers hi
  · exact h.socket
  · exact h.number
  · exact le_refl _
  · intro kind fd hset
    dsimp only [AdaLoop.buildSets] at hset ⊢
    obtain ⟨i, hi, hfd, -⟩ := inSet_iff.mp hset
    dsimp only at hi
    rw [updateHandlers_fd] at hi
    obtain ⟨r, hr⟩ := h.registered i (hi ▸ hfd)
    rw [hi] at hr
    refine ⟨hfd, r.number, h.number fd r hr, ?_, ?_⟩
    · rw [if_pos hset, hr]
      rfl
    · intro r' hr' _
      rw [hr] at hr'
      cases hr'
      rfl

theorem Inv.select (h : Inv s) {outcome : Option (Kind → Int → Bool)}
    (hstep : AdaLoop.select s outcome = some t) : Inv t := by
  unfold AdaLoop.select at hstep
  cases outcome with
  | none =>
    dsimp only at hstep
    split_ifs at hstep
    cases hstep
    exact h.frame (fun _ _ => ⟨sameSlot_refl _, rfl⟩) (fun _ _ hr => hr) rfl rfl rfl fun _ _ hset => hset
  | some ready =>
    cases hstep
    refine h.frame (fun _ _ => ⟨sameSlot_refl _, rfl⟩) (fun _ _ hr => hr) rfl rfl rfl fun kind fd hset => ?_
    exact (Bool.and_eq_true_iff.mp hset).1

/-- Only the place of the loop and its lock change. -/
theorem Inv.loop (h : Inv s) (loop : LoopPc) (fdLock : Bool) : Inv { s with loop, fdLock } :=
  h.frame (fun _ _ => ⟨sameSlot_refl _, rfl⟩) (fun _ _ hr => hr) rfl rfl rfl fun _ _ hset => hset

theorem inv_step {event : Event η α} (h : Inv s) (hstep : step s event = some t) : Inv t := by
  unfold step at hstep
  by_cases hcrashed : s.loop = .crashed
  · rw [if_pos hcrashed] at hstep
    cases hstep
  rw [if_neg hcrashed] at hstep
  cases event with
  | addSocket caller socket handler arg =>
    dsimp only [addSocketLocked] at hstep
    split_ifs at hstep
    · cases caller <;> cases hstep
      exact h.loop _ _
    · cases hstep
      exact h.addSocket socket handler arg
  | removeSocket socket =>
    cases hstep
    exact h.removeSocket socket
  | enableWrite socket enable =>
    cases hstep
    exact h.enableWrite socket enable
  | build =>
    dsimp only at hstep
    split_ifs at hstep
    cases hstep
    exact h.buildSets
  | select outcome =>
    dsimp only at hstep
    split_ifs at hstep
    exact h.select hstep
  | dispatch =>
    dsimp only [AdaLoop.dispatch] at hstep
    split at hstep
    · split at hstep <;> cases hstep <;> exact h.loop _ _
    · cases hstep
  | handlerReturns =>
    dsimp only [AdaLoop.handlerReturns] at hstep
    split at hstep
    · cases hstep
      exact h.loop _ _
    · cases hstep

def readBy (handler : Nat) : Kind → Option Nat := fun kind =>
  if kind = .read then some handler else none

def writeBy (handler : Nat) : Kind → Option Nat := fun kind =>
  if kind = .write then some handler else none

/-- While `select` waits, another task closes socket 5 and gets the number for a new socket,
which is only written. `select` reports 5 readable. -/
def reuse : List (Event Nat Nat) :=
  [.addSocket .task 5 (readBy 1) (some 0), .build, .removeSocket 5,
    .addSocket .task 5 (writeBy 2) (some 0),
    .select (some fun kind fd => kind = .read ∧ fd = 5), .dispatch, .dispatch, .dispatch]

end Sv6x66.Ayla.AdaLoop
