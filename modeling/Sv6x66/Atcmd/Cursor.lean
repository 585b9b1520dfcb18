import Sv6x66.Atcmd.RecvTask

/-! What the steps of `recv_task` can do, and the invariant that the nodes it
stands on are registered. -/
namespace Sv6x66.Atcmd.RecvTask
open Sv6x66.Lib Function SocketList SocketOrder

/-- The transitions of the task. -/
inductive Next (s : Sys) : Pc → Effect → Option Pc → Prop where
  | start : Next s .start .setRunning (some .loopTest)
  | loopZero : s.recvTaskSt = .running → Next s .loopTest .keep (some .zero)
  | loopEnd : s.recvTaskSt ≠ .running → Next s .loopTest .keep (some (.terminate .normal))
  | zero : Next s .zero .zeroClr (some .max)
  | max : Next s .max .updateMaxSd (some .copy)
  | copy : Next s .copy .keep (some (.select s.rSet))
  | selectError {rSet} : Next s (.select rSet) .keep (some (.terminate .normal))
  | selectTimeout {rSet} : Next s (.select rSet) .keep (some .timeout)
  | selectReady {rSet ready} : ready ⊆ rSet.filter (· ≤ s.maxSd) →
      Next s (.select rSet) .keep (some (.aItem ready .listen (s.lists .listen).head? none))
  | timeoutScan : s.clrSet ≠ ∅ →
      Next s .timeout .keep (some (.tItem .listen (s.lists .listen).head?))
  | timeoutNone : s.clrSet = ∅ → Next s .timeout .keep (some .stopTest)
  | tListenEnd :
      Next s (.tItem .listen none) .keep (some (.tItem .normal (s.lists .normal).head?))
  | tNormalEnd : Next s (.tItem .normal none) .keep (some .stopTest)
  | tItem {k sd} :
      Next s (.tItem k (some sd)) .keep (some (.tCheck k sd (succ (s.lists k) sd)))
  | tMarked {k sd after} : sd ∈ s.clrSet →
      Next s (.tCheck k sd after) .keep (some (.tRemove k sd after))
  | tUnmarked {k sd after} : sd ∉ s.clrSet →
      Next s (.tCheck k sd after) .keep (some (.tItem k after))
  | tRemove {k sd after} : Next s (.tRemove k sd after) (.unlink k sd) (some (.tItem k after))
  | stopEnd : s.recvTaskSt ≠ .running → Next s .stopTest .keep (some (.terminate .normal))
  | stopLoop : s.recvTaskSt = .running → Next s .stopTest .keep (some .loopTest)
  | aEnd {ready k closeitem} :
      Next s (.aItem ready k none closeitem) .keep (some (.aTail ready k closeitem))
  | aItem {ready k sd closeitem} :
      Next s (.aItem ready k (some sd) closeitem) .keep (some (.aFormer ready k sd closeitem))
  | aFormer {ready k sd closeitem} :
      Next s (.aFormer ready k sd closeitem) (unlinkFormer k closeitem)
        (some (.aCheck ready k sd))
  | aMarked {ready k sd} : sd ∈ s.clrSet →
      Next s (.aCheck ready k sd) .keep (some (.aNext ready k sd (some sd)))
  | aUnmarked {ready k sd} : sd ∉ s.clrSet →
      Next s (.aCheck ready k sd) .keep (some (.aReady ready k sd))
  | aIdle {ready k sd} : Next s (.aReady ready k sd) .keep (some (.aNext ready k sd none))
  | aAccept {ready sd forksocket} : forksocket ∉ s.opened →
      Next s (.aReady ready .listen sd) (.accepted forksocket) (some (.aNew ready sd forksocket))
  | aLost {ready sd} :
      Next s (.aReady ready .normal sd) (.clearBit sd) (some (.aNext ready .normal sd (some sd)))
  | aRegister {ready sd forksocket behind} :
      Next s (.aNew ready sd forksocket) (.register forksocket behind)
        (some (.aSetBit ready sd forksocket))
  | aNoMemory {ready sd forksocket} :
      Next s (.aNew ready sd forksocket) .keep (some (.aNext ready .listen sd none))
  | aSetBit {ready sd forksocket} :
      Next s (.aSetBit ready sd forksocket) (.setBit forksocket)
        (some (.aNext ready .listen sd none))
  | aNext {ready k sd closeitem} :
      Next s (.aNext ready k sd closeitem) .keep
        (some (.aItem ready k (succ (s.lists k) sd) closeitem))
  | aListenTail {ready closeitem} :
      Next s (.aTail ready .listen closeitem) (unlinkFormer .listen closeitem)
        (some (.aItem ready .normal (s.lists .normal).head? none))
  | aNormalTail {ready closeitem} :
      Next s (.aTail ready .normal closeitem) (unlinkFormer .normal closeitem) (some .loopTest)
  | termNode {k sd} : (s.lists k).head? = some sd →
      Next s (.terminate k) (.unlink k sd) (some (.terminate k))
  | termNormalEnd : s.lists .normal = [] →
      Next s (.terminate .normal) .keep (some (.terminate .listen))
  | termListenEnd : s.lists .listen = [] → Next s (.terminate .listen) .keep (some .termZero)
  | termZero : Next s .termZero .zeroR (some .termSt)
  | termSt : Next s .termSt .setTerm (some .termInst)
  | termInst : Next s .termInst .keep none

theorem next_spec {s : Sys} {pc : Pc} {answer : Answer} {effect : Effect} {pc' : Option Pc}
    (h : next s pc answer = some (effect, pc')) : Next s pc effect pc' := by
  unfold next at h
  split at h
  · cases h
    exact .start
  · split at h <;> cases h
    · exact .loopZero ‹_›
    · exact .loopEnd ‹_›
  · cases h
    exact .zero
  · cases h
    exact .max
  · cases h
    exact .copy
  · cases h
    exact .selectError
  · cases h
    exact .selectTimeout
  · split at h <;> cases h
    exact .selectReady ‹_›
  · split at h <;> cases h
    · exact .timeoutScan ‹_›
    · exact .timeoutNone (not_not.mp ‹_›)
  · cases h
    exact .tListenEnd
  · cases h
    exact .tNormalEnd
  · cases h
    exact .tItem
  · split at h <;> cases h
    · exact .tMarked ‹_›
    · exact .tUnmarked ‹_›
  · cases h
    exact .tRemove
  · split at h <;> cases h
    · exact .stopEnd ‹_›
    · exact .stopLoop (not_not.mp ‹_›)
  · cases h
    exact .aEnd
  · cases h
    exact .aItem
  · cases h
    exact .aFormer
  · split at h <;> cases h
    · exact .aMarked ‹_›
    · exact .aUnmarked ‹_›
  · split at h <;> cases h
    exact .aIdle
  · split at h <;> cases h
    exact .aIdle
  · split at h <;> cases h
    exact .aAccept (And.right ‹_›)
  · split at h
    · obtain ⟨readlen, -, heq⟩ := Option.map_eq_some_iff.mp h
      split at heq <;> cases heq
      · exact .aLost
      · exact .aIdle
    · cases h
  · split at h <;> cases h
    · exact .aRegister
    · exact .aNoMemory
  · cases h
    exact .aSetBit
  · cases h
    exact .aNext
  · cases h
    exact .aListenTail
  · cases h
    exact .aNormalTail
  · split at h <;> cases h
    · exact .termNode ‹_›
    · exact .termNormalEnd (List.head?_eq_none_iff.mp ‹_›)
    · exact .termListenEnd (List.head?_eq_none_iff.mp ‹_›)
  · cases h
    exact .termZero
  · cases h
    exact .termSt
  · cases h
    exact .termInst
  · cases h

theorem stepTask_spec {s t : Sys} {answer : Answer} (h : stepTask s answer = some t) :
    ∃ pc effect pc', s.recvTask = some pc ∧ Next s pc effect pc' ∧
      t = { apply s effect with recvTask := pc' } := by
  obtain ⟨pc, hpc, hmap⟩ := Option.bind_eq_some_iff.mp h
  obtain ⟨⟨effect, pc'⟩, hnext, rfl⟩ := Option.map_eq_some_iff.mp hmap
  exact ⟨pc, effect, pc', hpc, next_spec hnext, rfl⟩

/-! ### The order of a list -/

/-- `sd` comes after `item`. -/
def After (l : List Int) (item sd : Int) : Prop := [item, sd].Sublist l

/-- `sd` is `item` or comes after it. -/
def From (l : List Int) (item : Option Int) (sd : Int) : Prop :=
  ∃ x, item = some x ∧ sd ∈ l ∧ (sd = x ∨ After l x sd)

theorem After.mem {l : List Int} {item sd : Int} (h : After l item sd) : sd ∈ l :=
  h.subset (by simp)

theorem succ_append {xs ys : List Int} {item : Int} (hitem : item ∉ xs) :
    succ (xs ++ item :: ys) item = ys.head? := by
  have hpos : ∀ x ∈ xs, decide (x ≠ item) = true := by
    intro x hx
    apply decide_eq_true
    rintro rfl
    exact hitem hx
  unfold succ
  rw [List.dropWhile_append_of_pos hpos, List.dropWhile_cons_of_neg (by simp)]
  rfl

theorem mem_split {l : List Int} (hnodup : l.Nodup) {item : Int} (hitem : item ∈ l) :
    ∃ xs ys, l = xs ++ item :: ys ∧ item ∉ xs ∧ item ∉ ys := by
  obtain ⟨xs, ys, rfl, hxs⟩ := List.eq_append_cons_of_mem hitem
  obtain ⟨-, hys, -⟩ := List.nodup_append.mp hnodup
  exact ⟨xs, ys, rfl, hxs, (List.nodup_cons.mp hys).1⟩

theorem after_append_iff {xs ys : List Int} {item sd : Int} (hxs : item ∉ xs) :
    After (xs ++ item :: ys) item sd ↔ sd ∈ ys := by
  unfold After
  constructor
  · intro h
    obtain ⟨l₁, l₂, heq, hl₁, hl₂⟩ := List.sublist_append_iff.mp h
    cases l₁ with
    | nil =>
      rw [List.nil_append] at heq
      subst heq
      rw [List.cons_sublist_cons] at hl₂
      exact List.singleton_sublist.mp hl₂
    | cons x l₁ =>
      obtain ⟨rfl, -⟩ := List.cons.inj heq
      exact absurd (hl₁.subset (List.mem_cons_self ..)) hxs
  · intro h
    have htail : [item, sd].Sublist (item :: ys) := (List.singleton_sublist.mpr h).cons_cons item
    exact htail.trans (List.sublist_append_right xs _)

theorem From.of_head {l : List Int} {sd : Int} (hsd : sd ∈ l) : From l l.head? sd := by
  cases l with
  | nil => cases hsd
  | cons x l =>
    refine ⟨x, rfl, hsd, ?_⟩
    rcases List.mem_cons.mp hsd with rfl | hrest
    · exact Or.inl rfl
    · exact Or.inr ((List.singleton_sublist.mpr hrest).cons_cons x)

/-- What comes after `item` is reached through its successor. -/
theorem After.succ {l : List Int} {item sd : Int} (hnodup : l.Nodup) (hitem : item ∈ l)
    (h : After l item sd) : From l (succ l item) sd := by
  obtain ⟨xs, ys, rfl, hxs, -⟩ := mem_split hnodup hitem
  have hsd := (after_append_iff hxs).mp h
  rw [succ_append hxs]
  obtain ⟨x, hx, -, hfrom⟩ := From.of_head hsd
  refine ⟨x, hx, List.mem_append_right _ (List.mem_cons_of_mem _ hsd), ?_⟩
  rcases hfrom with rfl | hafter
  · exact Or.inl rfl
  · have htail := (hafter.cons item).trans (List.sublist_append_right xs (item :: ys))
    exact Or.inr htail

theorem succ_mem {l : List Int} {item n : Int} (hnodup : l.Nodup) (hitem : item ∈ l)
    (h : n ∈ RecvTask.succ l item) : n ∈ l ∧ n ≠ item := by
  obtain ⟨xs, ys, rfl, hxs, hys⟩ := mem_split hnodup hitem
  rw [succ_append hxs] at h
  have hn := List.mem_of_mem_head? h
  refine ⟨List.mem_append_right _ (List.mem_cons_of_mem _ hn), ?_⟩
  rintro rfl
  exact hys hn

theorem After.erase {l : List Int} {item sd c : Int} (h : After l item sd) (hitem : item ≠ c)
    (hsd : sd ≠ c) : After (l.erase c) item sd := by
  have hsub := List.Sublist.erase c h
  rwa [List.erase_of_not_mem (by simp [hitem.symm, hsd.symm])] at hsub

theorem From.erase {l : List Int} {item : Option Int} {sd c : Int} (h : From l item sd)
    (hitem : ∀ x ∈ item, x ≠ c) (hsd : sd ≠ c) : From (l.erase c) item sd := by
  obtain ⟨x, rfl, hmem, hfrom⟩ := h
  refine ⟨x, rfl, (List.mem_erase_of_ne hsd).mpr hmem, ?_⟩
  rcases hfrom with rfl | hafter
  · exact Or.inl rfl
  · exact Or.inr (hafter.erase (hitem x rfl) hsd)

theorem From.mono {l l' : List Int} {item : Option Int} {sd : Int} (h : From l item sd)
    (hsub : l.Sublist l') : From l' item sd := by
  obtain ⟨x, rfl, hmem, hfrom⟩ := h
  exact ⟨x, rfl, hsub.subset hmem, hfrom.imp_right fun hafter => hafter.trans hsub⟩

theorem sublist_insertSd (behind socket : Int) (l : List Int) :
    l.Sublist (insertSd behind socket l) := by
  unfold insertSd
  have hcut := place_append behind socket id l
  generalize place behind socket id l = cut at hcut
  subst hcut
  exact (List.Sublist.refl _).append (List.sublist_cons_self ..)

theorem insertSd_perm (behind socket : Int) (l : List Int) :
    (insertSd behind socket l).Perm (socket :: l) := by
  unfold insertSd
  have hcut := place_append behind socket id l
  generalize place behind socket id l = cut at hcut
  subst hcut
  exact List.perm_middle

/-! ### The nodes the task stands on -/

/-- The nodes of a program counter are registered; the node to be closed is never
the one under examination. -/
def Cursor (s : Sys) : Pc → Prop
  | .tItem k item => ∀ x ∈ item, x ∈ s.lists k
  | .tCheck k item after => item ∈ s.lists k ∧ ∀ x ∈ after, x ∈ s.lists k ∧ x ≠ item
  | .tRemove k item after => item ∈ s.lists k ∧ ∀ x ∈ after, x ∈ s.lists k ∧ x ≠ item
  | .aItem _ k item closeitem => (∀ x ∈ item, x ∈ s.lists k) ∧
      ∀ c ∈ closeitem, c ∈ s.lists k ∧ ∀ x ∈ item, x ≠ c
  | .aFormer _ k item closeitem => item ∈ s.lists k ∧
      ∀ c ∈ closeitem, c ∈ s.lists k ∧ item ≠ c
  | .aCheck _ k item => item ∈ s.lists k
  | .aReady _ k item => item ∈ s.lists k
  | .aNew _ item forksocket => item ∈ s.lists .listen ∧ forksocket ∈ s.opened ∧
      ∀ k, forksocket ∉ s.lists k
  | .aSetBit _ item forksocket => item ∈ s.lists .listen ∧ forksocket ∈ s.lists .normal
  | .aNext _ k item closeitem => item ∈ s.lists k ∧ ∀ c ∈ closeitem, c = item
  | .aTail _ k closeitem => ∀ c ∈ closeitem, c ∈ s.lists k
  | _ => True

/-- The registered sockets are open and differ. -/
structure Lists (s : Sys) : Prop where
  nodup : ∀ k, (s.lists k).Nodup
  apart : ∀ sd, sd ∈ s.lists .listen → sd ∉ s.lists .normal
  opened : ∀ k, ∀ sd ∈ s.lists k, sd ∈ s.opened

structure Base (s : Sys) : Prop extends Lists s where
  cursor : ∀ pc, s.recvTask = some pc → Cursor s pc

theorem Lists.kind_eq {s : Sys} (h : Lists s) {k l : Kind} {sd : Int} (hk : sd ∈ s.lists k)
    (hl : sd ∈ s.lists l) : k = l := by
  cases k <;> cases l
  · rfl
  · exact absurd hl (h.apart sd hk)
  · exact absurd hk (h.apart sd hl)
  · rfl

/-- What an effect asks of the lists. -/
def Applicable (s : Sys) : Effect → Prop
  | .unlink k sd => sd ∈ s.lists k
  | .register forksocket _ => forksocket ∈ s.opened ∧ ∀ k, forksocket ∉ s.lists k
  | _ => True

theorem applicable_unlinkFormer {s : Sys} {k : Kind} {closeitem : Option Int}
    (h : ∀ c ∈ closeitem, c ∈ s.lists k) : Applicable s (unlinkFormer k closeitem) := by
  cases closeitem with
  | none => trivial
  | some c => exact h c rfl

theorem Next.applicable {s : Sys} {pc : Pc} {effect : Effect} {pc' : Option Pc}
    (hnext : Next s pc effect pc') (hcursor : Cursor s pc) : Applicable s effect := by
  cases hnext with
  | tRemove => exact hcursor.1
  | aFormer => exact applicable_unlinkFormer fun c hc => (hcursor.2 c hc).1
  | aListenTail => exact applicable_unlinkFormer hcursor
  | aNormalTail => exact applicable_unlinkFormer hcursor
  | aRegister => exact hcursor.2
  | termNode hhead => exact List.mem_of_mem_head? hhead
  | _ => trivial

theorem lists_unlink_ne {s : Sys} {k l : Kind} {sd : Int} (hl : l ≠ k) :
    (apply s (.unlink k sd)).lists l = s.lists l :=
  update_of_ne hl ..

theorem lists_unlink {s : Sys} {k : Kind} {sd : Int} :
    (apply s (.unlink k sd)).lists k = (s.lists k).erase sd :=
  update_self ..

theorem mem_lists_unlink {s : Sys} (h : Lists s) {k l : Kind} {sd x : Int}
    (hsd : sd ∈ s.lists k) :
    x ∈ (apply s (.unlink k sd)).lists l ↔ x ∈ s.lists l ∧ x ≠ sd := by
  by_cases hl : l = k
  · subst hl
    rw [lists_unlink, (h.nodup l).mem_erase_iff]
    exact and_comm
  · rw [lists_unlink_ne hl]
    refine ⟨fun hx => ⟨hx, ?_⟩, And.left⟩
    rintro rfl
    exact hl (h.kind_eq hx hsd)

theorem mem_insert_lists {lists : Kind → List Int} {k l : Kind} {behind fd x : Int} :
    x ∈ update lists k (insertSd behind fd (lists k)) l ↔ x ∈ lists l ∨ (x = fd ∧ l = k) := by
  by_cases hl : l = k
  · subst hl
    rw [update_self, (insertSd_perm behind fd (lists l)).mem_iff, List.mem_cons]
    simp [or_comm]
  · rw [update_of_ne hl]
    simp [hl]

/-- Registering a fresh descriptor in list `k`. -/
theorem Lists.insert {s : Sys} (h : Lists s) {k : Kind} {fd behind : Int} {t : Sys}
    (hfresh : ∀ l, fd ∉ s.lists l)
    (hlists : t.lists = update s.lists k (insertSd behind fd (s.lists k)))
    (hopened : ∀ sd, sd ∈ s.opened ∨ sd = fd → sd ∈ t.opened) : Lists t := by
  have hmem : ∀ l x, x ∈ t.lists l ↔ x ∈ s.lists l ∨ (x = fd ∧ l = k) := by
    intro l x
    rw [hlists]
    exact mem_insert_lists
  constructor
  · intro l
    rw [hlists]
    by_cases hl : l = k
    · subst hl
      rw [update_self, (insertSd_perm behind fd (s.lists l)).nodup_iff]
      exact List.nodup_cons.mpr ⟨hfresh l, h.nodup l⟩
    · rw [update_of_ne hl]
      exact h.nodup l
  · intro sd hlisten hnormal
    rcases (hmem _ _).mp hlisten with hl | ⟨rfl, hk⟩
    · rcases (hmem _ _).mp hnormal with hn | ⟨rfl, -⟩
      · exact h.apart sd hl hn
      · exact hfresh _ hl
    · rcases (hmem _ _).mp hnormal with hn | ⟨-, hk'⟩
      · exact hfresh _ hn
      · exact absurd (hk.trans hk'.symm) (by decide)
  · intro l sd hsd
    apply hopened
    rcases (hmem _ _).mp hsd with hold | ⟨rfl, -⟩
    · exact Or.inl (h.opened l sd hold)
    · exact Or.inr rfl

theorem Lists.apply {s : Sys} {effect : Effect} (h : Lists s) (happ : Applicable s effect) :
    Lists (apply s effect) := by
  cases effect with
  | unlink k sd =>
    constructor
    · intro l
      by_cases hl : l = k
      · subst hl
        rw [lists_unlink]
        exact (h.nodup l).erase sd
      · rw [lists_unlink_ne hl]
        exact h.nodup l
    · intro x hlisten hnormal
      exact h.apart x ((mem_lists_unlink h happ).mp hlisten).1
        ((mem_lists_unlink h happ).mp hnormal).1
    · intro l x hx
      obtain ⟨hold, hne⟩ := (mem_lists_unlink h happ).mp hx
      exact Finset.mem_erase.mpr ⟨hne, h.opened l x hold⟩
  | register forksocket behind =>
    apply h.insert happ.2 rfl
    rintro sd (hsd | rfl)
    · exact hsd
    · exact happ.1
  | accepted forksocket =>
    exact ⟨h.nodup, h.apart, fun k sd hsd => Finset.mem_insert_of_mem (h.opened k sd hsd)⟩
  | keep => exact h
  | setRunning => exact ⟨h.nodup, h.apart, h.opened⟩
  | zeroClr => exact ⟨h.nodup, h.apart, h.opened⟩
  | updateMaxSd => exact ⟨h.nodup, h.apart, h.opened⟩
  | setBit sd => exact ⟨h.nodup, h.apart, h.opened⟩
  | clearBit sd => exact ⟨h.nodup, h.apart, h.opened⟩
  | zeroR => exact ⟨h.nodup, h.apart, h.opened⟩
  | setTerm => exact ⟨h.nodup, h.apart, h.opened⟩

theorem mem_unlinkFormer {s : Sys} (h : Lists s) {k l : Kind} {closeitem : Option Int} {x : Int}
    (hclose : ∀ c ∈ closeitem, c ∈ s.lists k ∧ x ≠ c) (hx : x ∈ s.lists l) :
    x ∈ (RecvTask.apply s (unlinkFormer k closeitem)).lists l := by
  cases closeitem with
  | none => exact hx
  | some c => exact (mem_lists_unlink h (hclose c rfl).1).mpr ⟨hx, (hclose c rfl).2⟩

theorem Next.cursor {s : Sys} {pc : Pc} {effect : Effect} {pc' : Pc} (h : Lists s)
    (hnext : Next s pc effect (some pc')) (hcursor : Cursor s pc) :
    Cursor (RecvTask.apply s effect) pc' := by
  have hhead : ∀ k, ∀ x ∈ (s.lists k).head?, x ∈ s.lists k :=
    fun k x hx => List.mem_of_mem_head? hx
  cases hnext with
  | selectReady => exact ⟨hhead .listen, by simp⟩
  | timeoutScan => exact hhead .listen
  | tListenEnd => exact hhead .normal
  | @tItem k sd => exact ⟨hcursor sd rfl, fun x hx => succ_mem (h.nodup k) (hcursor sd rfl) hx⟩
  | tMarked => exact hcursor
  | tUnmarked => exact fun x hx => (hcursor.2 x hx).1
  | tRemove => exact fun x hx => (mem_lists_unlink h hcursor.1).mpr (hcursor.2 x hx)
  | aEnd => exact fun c hc => (hcursor.2 c hc).1
  | @aItem ready k sd closeitem =>
    exact ⟨hcursor.1 sd rfl, fun c hc => ⟨(hcursor.2 c hc).1, (hcursor.2 c hc).2 sd rfl⟩⟩
  | aFormer => exact mem_unlinkFormer h hcursor.2 hcursor.1
  | aMarked => exact ⟨hcursor, by simp⟩
  | aUnmarked => exact hcursor
  | aIdle => exact ⟨hcursor, by simp⟩
  | aAccept hfresh =>
    refine ⟨hcursor, Finset.mem_insert_self .., fun k hk => ?_⟩
    exact hfresh (h.opened k _ hk)
  | aLost => exact ⟨hcursor, by simp⟩
  | @aRegister ready sd forksocket behind =>
    refine ⟨hcursor.1, ?_⟩
    simp only [apply, update_self]
    rw [(insertSd_perm behind forksocket _).mem_iff]
    exact List.mem_cons_self ..
  | aNoMemory => exact ⟨hcursor.1, by simp⟩
  | aSetBit => exact ⟨hcursor.1, by simp⟩
  | @aNext ready k sd closeitem =>
    refine ⟨fun x hx => (succ_mem (h.nodup k) hcursor.1 hx).1, fun c hc => ?_⟩
    cases hcursor.2 c hc
    exact ⟨hcursor.1, fun x hx => (succ_mem (h.nodup k) hcursor.1 hx).2⟩
  | aListenTail =>
    refine ⟨fun x hx => ?_, by simp⟩
    apply mem_unlinkFormer h _ (hhead .normal x hx)
    intro c hc
    refine ⟨hcursor c hc, ?_⟩
    rintro rfl
    exact h.apart x (hcursor x hc) (hhead .normal x hx)
  | _ => trivial

theorem Base.task {s t : Sys} {answer : Answer} (h : Base s)
    (hstep : stepTask s answer = some t) : Base t := by
  obtain ⟨pc, effect, pc', hpc, hnext, rfl⟩ := stepTask_spec hstep
  have hcursor := h.cursor pc hpc
  have hlists := h.toLists.apply (hnext.applicable hcursor)
  refine ⟨⟨hlists.nodup, hlists.apart, hlists.opened⟩, ?_⟩
  intro pc'' hpc''
  change pc' = some pc'' at hpc''
  subst hpc''
  have hcursor' := hnext.cursor h.toLists hcursor
  revert hcursor'
  cases pc'' <;> exact id

/-! ### What the commands can do -/

theorem erase_insertSd {behind fd : Int} {l : List Int} (h : fd ∉ l) :
    (insertSd behind fd l).erase fd = l := by
  unfold insertSd
  have hcut := place_append behind fd id l
  generalize place behind fd id l = cut at hcut
  subst hcut
  rw [List.erase_append_right _ fun hmem => h (List.mem_append_left _ hmem),
    List.erase_cons_head]

/-- An opening command that failed has left everything as it was, but for the bit
of a descriptor that was not open. -/
structure Failed (s t : Sys) (ret : Ret) : Prop where
  ret : ret ≠ .success
  frame : t = { s with rSet := t.rSet, port := t.port }
  rSet : t.rSet = s.rSet ∨ ∃ fd ∉ s.opened, t.rSet = s.rSet.erase fd

/-- An opening command that succeeded has registered a new descriptor in list
`k`, and a task is there. -/
structure Opened (s t : Sys) (k : Kind) (fd : Int) (ret : Ret) : Prop where
  ret : ret = .success
  fresh : fd ∉ s.opened
  frame : ∃ behind port, t = { s with
    lists := update s.lists k (insertSd behind fd (s.lists k))
    port := port
    rSet := insert fd s.rSet
    opened := insert fd s.opened
    recvTask := some (s.recvTask.getD .start) }

theorem serve_spec {s : Sys} (h : Lists s) {k : Kind} {fd : Int} {port : UInt16} {calls : Calls}
    {error : Ret} (hfresh : fd ∉ s.opened) (herror : error ≠ .success) :
    let r := serve { s with opened := insert fd s.opened } k fd port calls error
    Failed s r.2 r.1 ∨ Opened s r.2 k fd r.1 := by
  have hclose : (insert fd s.opened).erase fd = s.opened := Finset.erase_insert hfresh
  dsimp only [serve]
  by_cases hmalloc : ¬ calls.malloc
  · rw [if_pos hmalloc]
    exact Or.inl ⟨herror, by simp only [close, hclose], Or.inl rfl⟩
  · rw [if_neg hmalloc]
    by_cases htask : s.recvTask = none
    · rw [if_pos htask]
      by_cases hcreate : ¬ calls.taskCreate
      · rw [if_pos hcreate]
        have hlist : ((insertSd calls.behind fd (s.lists k)).erase fd) = s.lists k :=
          erase_insertSd fun hmem => hfresh (h.opened k fd hmem)
        refine Or.inl ⟨herror, ?_, Or.inr ⟨fd, hfresh, ?_⟩⟩
        · simp only [close, hclose, update_self, hlist, update_idem, update_eq_self]
        · simp only [close, Finset.erase_insert_eq_erase]
      · rw [if_neg hcreate]
        exact Or.inr ⟨rfl, hfresh, calls.behind, _, by rw [htask]; rfl⟩
    · rw [if_neg htask]
      obtain ⟨pc, hpc⟩ := Option.ne_none_iff_exists'.mp htask
      exact Or.inr ⟨rfl, hfresh, calls.behind, _, by rw [hpc]; rfl⟩

theorem openSocket_spec {s : Sys} (h : Lists s) {k : Kind} {argc minArgc : Nat} {port : UInt16}
    {calls : Calls} {noSocket unprepared error : Ret}
    (hfresh : ∀ fd ∈ calls.socket, fd ∉ s.opened) (hnoSocket : noSocket ≠ .success)
    (hunprepared : unprepared ≠ .success) (herror : error ≠ .success) :
    let r := openSocket s k argc minArgc port calls noSocket unprepared error
    Failed s r.2 r.1 ∨ ∃ fd, Opened s r.2 k fd r.1 := by
  dsimp only [openSocket]
  split
  · exact Or.inl ⟨by simp, rfl, Or.inl rfl⟩
  · split
    · exact Or.inl ⟨by simp, rfl, Or.inl rfl⟩
    · split
      · exact Or.inl ⟨hnoSocket, rfl, Or.inl rfl⟩
      · rename_i fd hsocket
        have hnew := hfresh fd hsocket
        split
        · have hclose : (insert fd s.opened).erase fd = s.opened := Finset.erase_insert hnew
          exact Or.inl ⟨hunprepared, by simp only [close, hclose], Or.inl rfl⟩
        · exact (serve_spec h hnew herror).imp id fun hopened => ⟨fd, hopened⟩

/-- The socket whose mark a step of a command sets. -/
def marked (s : Sys) : Event → Option Int
  | .cmd => match s.cmd with
    | .mark conn => if conn ∈ s.lists .normal then some conn else none
    | _ => none
  | .tcpUnlisten argc port behind =>
    if argc < 1 ∨ port = 0 then none else listenSdByPort s port behind
  | _ => none

/-- The four kinds of command steps. -/
inductive Command (s : Sys) (event : Event) (t : Sys) : Prop where
  | failed (ret : Ret) : Failed s t ret → Command s event t
  | opened (k : Kind) (fd : Int) (ret : Ret) : Opened s t k fd ret → Command s event t
  | mark (sd : Int) (cmd : Cmd) : marked s event = some sd → t = { setMark s sd with cmd := cmd } →
      Command s event t
  | other (rSet : Finset Int) (cmd : Cmd) (st : TaskSt) :
      (st = .running → s.recvTaskSt = .running) →
      t = { s with rSet := rSet, cmd := cmd, recvTaskSt := st } → Command s event t

theorem Command.of_spec {s t : Sys} {event : Event} {k : Kind} {ret : Ret}
    (h : Failed s t ret ∨ ∃ fd, Opened s t k fd ret) : Command s event t := by
  rcases h with hfailed | ⟨fd, hopened⟩
  · exact .failed ret hfailed
  · exact .opened k fd ret hopened

theorem stepCmd_spec {s t : Sys} (hstep : stepCmd s = some t) : Command s .cmd t := by
  unfold stepCmd at hstep
  cases hcmd : s.cmd with
  | idle =>
    rw [hcmd] at hstep
    cases hstep
  | clearBit conn =>
    rw [hcmd] at hstep
    cases hstep
    exact .other _ _ _ id rfl
  | mark conn =>
    rw [hcmd] at hstep
    cases hstep
    by_cases hconn : conn ∈ s.lists .normal
    · refine .mark conn .chkSocketTask ?_ ?_
      · simp [marked, hcmd, hconn]
      · simp [markRmSd, hconn]
    · refine .other s.rSet .chkSocketTask s.recvTaskSt id ?_
      simp [markRmSd, hconn]
  | clearListen socket =>
    rw [hcmd] at hstep
    cases hstep
    exact .other _ _ _ id rfl
  | chkSocketTask =>
    rw [hcmd] at hstep
    cases hstep
    split
    · exact .other _ _ _ id rfl
    · split
      · exact .other _ _ .stop (fun h => by cases h) rfl
      · exact .other _ _ _ id rfl
  | waitTerm =>
    rw [hcmd] at hstep
    simp only at hstep
    split at hstep
    · cases hstep
      exact .other _ _ .stop (fun h => by cases h) rfl
    · cases hstep

theorem atTcpUnlisten_spec {s : Sys} (argc : Nat) (port : UInt16) (behind : Behind) :
    Command s (.tcpUnlisten argc port behind) (atTcpUnlisten s argc port behind) := by
  unfold atTcpUnlisten
  split
  · exact .other _ _ _ id rfl
  · rename_i hargs
    unfold markRmListenSdByPort
    dsimp only
    split
    · rename_i socket hfound
      have hmarked : marked s (.tcpUnlisten argc port behind) = some socket := by
        simp only [marked, if_neg hargs, hfound]
      split
      · exact .mark socket s.cmd hmarked rfl
      · exact .mark socket (.clearListen socket) hmarked rfl
    · rw [if_pos rfl]
      exact .other _ _ _ id rfl

theorem command_spec {s t : Sys} {event : Event} (h : Lists s) (hstep : step s event = some t)
    (hevent : ∀ answer, event ≠ .task answer) : Command s event t := by
  cases event with
  | task answer => exact absurd rfl (hevent answer)
  | tcpConnect argc port calls =>
    simp only [step] at hstep
    split at hstep
    · rename_i hready
      cases hstep
      exact .of_spec (openSocket_spec h hready.2 (by simp) (by simp) (by simp))
    · cases hstep
  | tcpListen argc port calls =>
    simp only [step] at hstep
    split at hstep
    · rename_i hready
      cases hstep
      exact .of_spec (openSocket_spec h hready.2 (by simp) (by simp) (by simp))
    · cases hstep
  | udpCreate argc port calls =>
    simp only [step] at hstep
    split at hstep
    · rename_i hready
      cases hstep
      exact .of_spec (openSocket_spec h hready.2 (by simp) (by simp) (by simp))
    · cases hstep
  | tcpDisconnect argc conn =>
    simp only [step, atTcpDisconnect] at hstep
    split at hstep
    · split at hstep <;> cases hstep <;> exact .other _ _ _ id rfl
    · cases hstep
  | udpClose argc sock =>
    simp only [step, atUdpClose, atTcpDisconnect] at hstep
    split at hstep
    · split at hstep <;> cases hstep <;> exact .other _ _ _ id rfl
    · cases hstep
  | tcpUnlisten argc port behind =>
    simp only [step] at hstep
    split at hstep
    · cases hstep
      exact atTcpUnlisten_spec argc port behind
    · cases hstep
  | cmd => exact stepCmd_spec hstep

/-- Cursors survive registrations of descriptors that were not open. -/
theorem Cursor.mono {s t : Sys} {pc : Pc} (h : Cursor s pc)
    (hlists : ∀ k, ∀ x ∈ s.lists k, x ∈ t.lists k) (hopened : ∀ x ∈ s.opened, x ∈ t.opened)
    (hnew : ∀ k, ∀ x ∈ t.lists k, x ∈ s.lists k ∨ x ∉ s.opened) : Cursor t pc := by
  cases pc with
  | tItem k item => exact fun x hx => hlists k x (h x hx)
  | tCheck k item after =>
    exact ⟨hlists k _ h.1, fun x hx => ⟨hlists k x (h.2 x hx).1, (h.2 x hx).2⟩⟩
  | tRemove k item after =>
    exact ⟨hlists k _ h.1, fun x hx => ⟨hlists k x (h.2 x hx).1, (h.2 x hx).2⟩⟩
  | aItem ready k item closeitem =>
    exact ⟨fun x hx => hlists k x (h.1 x hx), fun c hc => ⟨hlists k c (h.2 c hc).1, (h.2 c hc).2⟩⟩
  | aFormer ready k item closeitem =>
    exact ⟨hlists k _ h.1, fun c hc => ⟨hlists k c (h.2 c hc).1, (h.2 c hc).2⟩⟩
  | aCheck ready k item => exact hlists k _ h
  | aReady ready k item => exact hlists k _ h
  | aNew ready item forksocket =>
    refine ⟨hlists _ _ h.1, hopened _ h.2.1, fun k hk => ?_⟩
    rcases hnew k _ hk with hold | hclosed
    · exact h.2.2 k hold
    · exact hclosed h.2.1
  | aSetBit ready item forksocket => exact ⟨hlists _ _ h.1, hlists _ _ h.2⟩
  | aNext ready k item closeitem => exact ⟨hlists k _ h.1, h.2⟩
  | aTail ready k closeitem => exact fun c hc => hlists k c (h c hc)
  | _ => trivial

theorem Base.command {s t : Sys} {event : Event} (h : Base s) (hcommand : Command s event t) :
    Base t := by
  cases hcommand with
  | failed ret hfailed =>
    rw [hfailed.frame]
    refine ⟨⟨h.nodup, h.apart, h.opened⟩, fun pc hpc => ?_⟩
    exact (h.cursor pc hpc).mono (fun _ _ => id) (fun _ => id) fun _ _ => Or.inl
  | opened k fd ret hopened =>
    obtain ⟨behind, port, rfl⟩ := hopened.frame
    have hfresh : ∀ l, fd ∉ s.lists l := fun l hl => hopened.fresh (h.opened l fd hl)
    refine ⟨h.toLists.insert hfresh rfl fun sd hsd => ?_, fun pc hpc => ?_⟩
    · exact Finset.mem_insert.mpr hsd.symm
    · cases hpc
      cases htask : s.recvTask with
      | none => exact trivial
      | some pc =>
        apply (h.cursor pc htask).mono
        · exact fun l x hx => mem_insert_lists.mpr (Or.inl hx)
        · exact fun x hx => Finset.mem_insert_of_mem hx
        · intro l x hx
          rcases mem_insert_lists.mp hx with hold | ⟨rfl, -⟩
          · exact Or.inl hold
          · exact Or.inr hopened.fresh
  | mark sd cmd hmarked heq =>
    rw [heq]
    refine ⟨⟨h.nodup, h.apart, h.opened⟩, fun pc hpc => ?_⟩
    exact (h.cursor pc hpc).mono (fun _ _ => id) (fun _ => id) fun _ _ => Or.inl
  | other rSet cmd st hst heq =>
    rw [heq]
    refine ⟨⟨h.nodup, h.apart, h.opened⟩, fun pc hpc => ?_⟩
    exact (h.cursor pc hpc).mono (fun _ _ => id) (fun _ => id) fun _ _ => Or.inl

theorem Base.initial : Base initial where
  nodup := fun _ => List.nodup_nil
  apart := fun _ h => by cases h
  opened := fun _ _ h => by cases h
  cursor := fun _ h => by cases h

theorem Base.step {s t : Sys} {event : Event} (h : Base s) (hstep : step s event = some t) :
    Base t := by
  by_cases hevent : ∃ answer, event = .task answer
  · obtain ⟨answer, rfl⟩ := hevent
    exact h.task hstep
  · exact h.command (command_spec h.toLists hstep (not_exists.mp hevent))

end Sv6x66.Atcmd.RecvTask
