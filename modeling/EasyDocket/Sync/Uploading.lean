import EasyDocket.Sync.Sending
import EasyDocket.Sync.Batching

/-!
# How queues empty

A cycle that ends without error has taken the first operations, as many as `PENDING_LIMIT`, off the queue that its device
had when it began, whatever else is edited, synced and restarted meanwhile.
-/

namespace EasyDocket

open SyncService

variable {D β S : Type} [DecidableEq D] {V : Vault D} {site : Site D β S} {d : D} {queue : List (LocalOperation β)}
  {s s' s'' : Store D β S} {j m n : ℕ}

/-! ## What has left a queue -/

/-- The operations before place `j` of a queue have been sent, and the others are still in front. -/
structure Gone (d : D) (queue : List (LocalOperation β)) (j : ℕ) (s : Store D β S) : Prop where
  sent : ∀ o ∈ queue.take j, { o with synced := true } ∈ (s.device d).ledger.oplog
  front : queue.drop j <+: (s.device d).ledger.unsynced

/-- From one state to a later one, `n` more operations leave a queue, as far as there are as many. -/
def Emptier (d : D) (queue : List (LocalOperation β)) (n : ℕ) (s s' : Store D β S) : Prop :=
  ∀ j, Gone d queue j s → ∃ j', j + n ≤ j' ∧ Gone d queue j' s'

/-- At least `n` operations have left a queue, as far as there are as many. -/
def Uploaded (d : D) (queue : List (LocalOperation β)) (n : ℕ) (s : Store D β S) : Prop :=
  ∃ j, min n queue.length ≤ j ∧ Gone d queue j s

omit [DecidableEq D] in
theorem Emptier.refl (s : Store D β S) : Emptier d queue 0 s s := fun j h => ⟨j, le_refl j, h⟩

omit [DecidableEq D] in
theorem Emptier.trans (h : Emptier d queue n s s') (h' : Emptier d queue m s' s'') : Emptier d queue (n + m) s s'' := by
  intro j hj
  obtain ⟨i, hi, hgone⟩ := h j hj
  obtain ⟨k, hk, hgone'⟩ := h' i hgone
  exact ⟨k, by omega, hgone'⟩

omit [DecidableEq D] in
theorem Uploaded.mono (h : Uploaded d queue m s) (hon : Emptier d queue n s s') : Uploaded d queue m s' := by
  obtain ⟨j, hj, hgone⟩ := h
  obtain ⟨i, hi, hgone'⟩ := hon j hgone
  exact ⟨i, by omega, hgone'⟩

omit [DecidableEq D] in
theorem gone_zero (h : queue <+: (s.device d).ledger.unsynced) : Gone d queue 0 s :=
  ⟨fun _ ho => absurd ho List.not_mem_nil, h⟩

omit [DecidableEq D] in
/-- What neither marks nor removes anything leaves the queue as it is. -/
theorem emptier_of_kept (hlog : ∀ o ∈ (s.device d).ledger.oplog, o ∈ (s'.device d).ledger.oplog)
    (hfront : (s.device d).ledger.unsynced <+: (s'.device d).ledger.unsynced) : Emptier d queue 0 s s' :=
  fun j h => ⟨j, le_refl j, fun o ho => hlog _ (h.sent o ho), h.front.trans hfront⟩

omit [DecidableEq D] in
theorem emptier_rely (h : Rely d s s') : Emptier d queue 0 s s' := emptier_of_kept h.oplog h.unsynced

omit [DecidableEq D] in
theorem emptier_of_eq (h : (s'.device d).ledger.oplog = (s.device d).ledger.oplog) : Emptier d queue 0 s s' := by
  refine emptier_of_kept (fun o ho => h ▸ ho) ?_
  unfold Ledger.unsynced
  rw [h]

omit [DecidableEq D] in
/-- Marking the first unsent operations takes them off. -/
theorem Gone.markSynced {slice : List (LocalOperation β)} (h : Gone d queue j s)
    (hslice : slice <+: (s.device d).ledger.unsynced)
    (hledger : (s'.device d).ledger = (s.device d).ledger.markSynced (slice.map (fun o => o.hlc))) :
    Gone d queue (j + slice.length) s' := by
  obtain ⟨rest, hrest⟩ := hslice
  have hmarked : (s'.device d).ledger.unsynced = rest := by
    rw [hledger]
    exact Ledger.unsynced_markSynced hrest.symm
  have hmark : ∀ o ∈ (s.device d).ledger.oplog, o.synced = true ∨ o ∈ slice →
      { o with synced := true } ∈ (s'.device d).ledger.oplog := by
    intro o ho hor
    rw [hledger]
    refine Ledger.mem_markSynced.mpr ⟨o, ho, ?_⟩
    rcases hor with hsync | hmem
    · rw [hsync, Bool.true_or]
    · rw [decide_eq_true (List.mem_map.mpr ⟨o, hmem, rfl⟩), Bool.or_true]
  have hfront := h.front
  rw [← hrest] at hfront
  constructor
  · intro o ho
    rw [List.take_add] at ho
    rcases List.mem_append.mp ho with ho | ho
    · exact hmark { o with synced := true } (h.sent o ho) (Or.inl rfl)
    · -- it is one of the slice
      have hmem : o ∈ slice := by
        have htake := hfront.take slice.length
        rw [List.take_left] at htake
        exact htake.subset ho
      exact hmark o (Ledger.mem_unsynced.mp (hrest ▸ List.mem_append_left rest hmem)).1 (Or.inr hmem)
  · have hdrop := hfront.drop slice.length
    rwa [List.drop_left, List.drop_drop, ← hmarked] at hdrop

/-- How many operations a request takes off the queue. -/
def marks : Request β → ℕ
  | .query (.markSynced stamps) => stamps.length
  | _ => 0

/-- The step lemma. -/
theorem emptier_served (hs : Sound V site s) {q : Request β} {r : Except SyncError q.Reply} (hreq : Requested V d q s)
    (h : Served site d q s r s') : Emptier d queue (marks q) s s' ∨ ∃ e, r = .error e ∧ Emptier d queue 0 s s' := by
  rcases h with ⟨wall, coin, heq⟩ | hmis
  · left
    cases q with
    | call c =>
      obtain ⟨-, rfl⟩ := Prod.mk.inj heq
      exact emptier_of_eq rfl
    | query q =>
      obtain ⟨-, rfl⟩ := Prod.mk.inj heq
      cases q with
      | markSynced stamps =>
        obtain ⟨_, _, slice, rfl, hslice, -, -⟩ := hreq
        intro j hj
        refine ⟨_, le_refl _, ?_⟩
        rw [marks, List.length_map]
        exact hj.markSynced hslice.front (by rw [afterQuery_device]; rfl)
      | merge ops =>
        have hm := merged_of_mergeable (d := d) hs (Mergeable.authored hreq)
        refine emptier_of_kept ?_ ?_
        · rw [afterQuery_device]
          exact hm.kept
        · rw [afterQuery_device]
          exact hm.unsynced ▸ List.prefix_refl _
      | _ => exact emptier_of_eq (by rw [afterQuery_device]; rfl)
  · right
    cases hmis
    exact ⟨_, rfl, emptier_of_eq rfl⟩

/-! ## One cycle -/

variable (queue)

/-- `wp` of a program of the engine, among states that satisfy `I`; how it may fail does not matter. -/
def Sends (V : Vault D) (site : Site D β S) (d : D) (I : Store D β S → Prop) {α : Type} (post : α → Store D β S → Prop)
    (p : Sync β α) (s : Store D β S) : Prop :=
  ((protocol V d site).within I).asked.wp post (fun _ _ => True) p s

namespace Sends

variable {I : Store D β S → Prop} {α γ : Type} {post : α → Store D β S → Prop}

theorem pure (a : α) (s : Store D β S) : Sends V site d I (fun _ s' => Emptier d queue 0 s s') (Pure.pure a) s :=
  fun _ hr => emptier_rely hr.1.1

theorem mono {p : Sync β α} {post' : α → Store D β S → Prop} (hp : Sends V site d I post p s)
    (h : ∀ a s, post a s → post' a s) : Sends V site d I post' p s :=
  Protocol.wp_mono hp h (fun _ _ h => h)

theorem bind {p : Sync β γ} {f : γ → Sync β α} {mid : γ → Store D β S → Prop} (hp : Sends V site d I mid p s)
    (hf : ∀ a s, mid a s → Sends V site d I post (f a) s) : Sends V site d I post (p >>= f) s :=
  Protocol.wp_bind (Protocol.wp_mono hp hf (fun _ _ h => h))

/-- Whatever is asked, the queue only empties. -/
theorem any (p : Sync β α) (s : Store D β S) : Sends V site d I (fun _ s' => Emptier d queue 0 s s') p s := by
  refine Protocol.wp_mono (Protocol.wp_since (R := Emptier d queue 0) Emptier.refl Emptier.trans ?_ ?_
    (Protocol.wp_trivial p s)) (fun _ _ h => h.2) (fun _ _ _ => trivial)
  · exact fun hr => emptier_rely hr.1.1
  · rintro q s r s' ⟨hreq, ⟨hs, hserved, -⟩, -⟩
    rcases emptier_served hs hreq hserved with hon | ⟨e, -, hon⟩
    · exact fun j hj => (hon j hj).imp (fun i hi => ⟨by omega, hi.2⟩)
    · exact hon

/-- A request takes off the queue what it marks. -/
theorem request {q : Request β} {f : q.Reply → Sync β α}
    (hok : ∀ a s', Sends V site d I (fun _ s'' => Emptier d queue n s' s'') (f a) s') :
    Sends V site d I (fun _ s' => Emptier d queue (marks q + n) s s') ((Prog.request q).bind f) s := by
  refine Protocol.wp_request (I := Emptier d queue 0 s) (fun s₁ s₂ h hr => h.trans (emptier_rely hr.1.1)) (Emptier.refl s)
    (fun _ _ => trivial) (fun _ _ => trivial) ?_
  rintro s₁ a s₂ hon ⟨hreq, ⟨hs, hserved, -⟩, -⟩
  refine Protocol.wp_mono (hok a s₂) (fun _ s' hrest => ?_) (fun _ _ h => h)
  rcases emptier_served hs hreq hserved with hone | ⟨e, he, -⟩
  · rw [← Nat.zero_add (marks q + n)]
    exact hon.trans (hone.trans hrest)
  · cases he

end Sends

section Cycle

variable {I : Store D β S → Prop}

theorem sends_pushSlice (pushed : ℕ) (slice : List (LocalOperation β)) (s : Store D β S) :
    Sends V site d I (fun _ s' => Emptier d queue slice.length s s') (pushSlice (V.session d) pushed slice) s := by
  unfold pushSlice
  cases hlast : slice.getLast? with
  | none =>
    rw [List.getLast?_eq_none_iff.mp hlast]
    exact Sends.pure queue pushed s
  | some last =>
    dsimp only
    refine Sends.bind (Sends.any queue _ s) (fun sealed s₁ h₁ => ?_)
    refine Sends.bind (Sends.any queue _ s₁) (fun _ s₂ h₂ => ?_)
    refine Sends.bind (Sends.any queue _ s₂) (fun _ s₃ h₃ => ?_)
    refine (Sends.request queue (n := 0) (fun _ s' => Sends.pure queue _ s')).mono (fun _ s' h => ?_)
    have hall := h₁.trans (h₂.trans (h₃.trans h))
    rw [marks, List.length_map] at hall
    simpa using hall

/-- The slices one after the other. -/
theorem sends_slices : ∀ (slices : List (List (LocalOperation β))) (pushed : ℕ) (s : Store D β S),
    Sends V site d I (fun _ s' => Emptier d queue slices.flatten.length s s') (slices.foldlM (pushSlice (V.session d)) pushed) s
  | [], pushed, s => Sends.pure queue pushed s
  | slice :: slices, pushed, s => by
    rw [List.foldlM_cons]
    refine Sends.bind (sends_pushSlice queue pushed slice s) (fun pushed' s' h => ?_)
    refine (sends_slices slices pushed' s').mono (fun _ s'' h' => ?_)
    rw [List.flatten_cons, List.length_append]
    exact h.trans h'

/-- A push takes off as much as it reads. -/
theorem sends_push (s : Store D β S) :
    Sends V site d I (fun _ s' => ∀ n, Uploaded d queue n s → Uploaded d queue (n + PENDING_LIMIT) s') (push (V.session d)) s := by
  unfold push
  refine Protocol.wp_request (I := Emptier d queue 0 s) (fun s₁ s₂ h hr => h.trans (emptier_rely hr.1.1))
    (Emptier.refl s) (fun _ _ => trivial) (fun _ _ => trivial) ?_
  rintro s₁ pending s₂ hon ⟨-, ⟨hs, hserved, -⟩, -⟩
  have hpending : pending = (s₁.device d).ledger.pendingOperations ∧ Emptier d queue 0 s₁ s₂ := by
    rcases hserved with ⟨wall, coin, heq⟩ | hmis
    · obtain ⟨hreply, rfl⟩ := Prod.mk.inj heq
      cases hreply
      exact ⟨rfl, emptier_of_eq (by rw [afterQuery_device]; rfl)⟩
    · cases hmis
  obtain ⟨rfl, hsame⟩ := hpending
  refine (sends_slices queue _ 0 s₂).mono (fun _ s' hrest n h => ?_)
  rw [flatten_slices (by decide) le_rfl] at hrest
  obtain ⟨j, hj, hgone⟩ := h
  obtain ⟨j₁, hj₁, hgone₁⟩ := hon j hgone
  obtain ⟨j', hj', hgone'⟩ := (hsame.trans hrest) j₁ hgone₁
  -- what was read begins with what is left of the queue
  have hlength := hgone₁.front.length_le
  rw [List.length_drop] at hlength
  rw [Ledger.pendingOperations, List.length_take] at hj'
  exact ⟨j', by omega, hgone'⟩

theorem sends_runCycle (s : Store D β S) :
    Sends V site d I (fun _ s' => ∀ n, Uploaded d queue n s → Uploaded d queue (n + PENDING_LIMIT) s')
      (runCycle (V.session d)) s := by
  unfold runCycle
  refine Sends.bind (Sends.any queue _ s) (fun _ s₁ h₁ => ?_)
  refine Sends.bind (sends_push queue s₁) (fun _ s₂ h₂ => ?_)
  refine (Sends.any queue _ s₂).mono (fun _ s' h' n h => ?_)
  exact (h₂ n (h.mono h₁)).mono h'

end Cycle

/-! ## Runs -/

section Runs

variable {c c' c₀ c₁ c₂ : State D β S} {queue}

/-- What the protocols let the cycles of all devices do. -/
def InCycles (V : Vault D) (site : Site D β S) (c : State D β S) : Prop :=
  Threads.Kept (Sound V site) (fun d => protocol V d site) (fun _ _ _ => True) c

theorem InCycles.reach (hc : InCycles V site c) (h : (world V site).Reach c c') : InCycles V site c' :=
  (soundRuns V site).reach hc h

/-- A request of any device. -/
theorem emptier_asked {d' : D} (hs : Sound V site s) {q : Request β} {r : Except SyncError q.Reply}
    (hreq : Requested V d' q s) (h : Served site d' q s r s') : Emptier d queue 0 s s' := by
  by_cases hd : d = d'
  · subst hd
    rcases emptier_served hs hreq h with hon | ⟨e, -, hon⟩
    · exact fun j hj => (hon j hj).imp (fun i hi => ⟨by omega, hi.2⟩)
    · exact hon
  · exact emptier_rely (((soundRuns V site).step d' q s r s' hs hreq h).2 d hd).1

theorem emptier_restart (s : Store D β S) (d' : D) : Emptier d queue 0 s (restart d' s) := by
  by_cases hd : d = d'
  · subst hd
    exact emptier_of_eq (by rw [restart_device]; rfl)
  · exact emptier_of_eq (by rw [restart_ne hd])

theorem emptier_leave (V : Vault D) (site : Site D β S) (d' : D) (r : Except SyncError Unit) (s : Store D β S) :
    Emptier d queue 0 s ((world V site).leave d' r s) := by
  cases r <;> exact emptier_of_eq rfl

/-- The step lemma: whatever the system does, queues only empty. -/
theorem emptier_step (hc : InCycles V site c) (h : (world V site).Step c c') : Emptier d queue 0 c.store c'.store := by
  cases h with
  | enter d' h => exact emptier_of_eq rfl
  | ask d' q k r s h hserved => exact emptier_asked hc.1 (hc.pre h) hserved
  | done d' a h => exact emptier_leave V site d' (.ok a) c.store
  | failed d' e h => exact emptier_leave V site d' (.error e) c.store
  | env s h => exact emptier_rely (((soundRuns V site).env c.store s hc.1 h).2 d).1
  | crash d' => exact emptier_restart c.store d'

/-- The run lemma. -/
theorem emptier_reach (hc : InCycles V site c) (h : (world V site).Reach c c') : Emptier d queue 0 c.store c'.store := by
  induction h with
  | refl => exact Emptier.refl c.store
  | tail hreach hstep ih => exact ih.trans (emptier_step (hc.reach hreach) hstep)

/-- A cycle that ends without error has taken off as much as it may read. -/
def TakesOff (d : D) (queue : List (LocalOperation β)) (n : ℕ) (d' : D) (_ : Unit) (s : Store D β S) : Prop :=
  d' = d → Uploaded d queue (n + PENDING_LIMIT) s

theorem takingRuns (V : Vault D) (site : Site D β S) (d : D) (queue : List (LocalOperation β)) (n : ℕ) :
    Threads.Sound ((world V site).restrict (fun _ _ _ _ => True) (fun _ _ => True))
      (fun s => Sound V site s ∧ Uploaded d queue n s)
      (fun d' => (protocol V d' site).within (fun s => Sound V site s ∧ Uploaded d queue n s)) (TakesOff d queue n) := by
  have hruns : Threads.Sound ((world V site).restrict (fun _ _ _ _ => True) (fun _ _ => True))
      (fun s => Sound V site s ∧ Uploaded d queue n s) (fun d' => protocol V d' site) (fun _ _ _ => True) := by
    refine (soundRuns V site).strengthen (fun d' s _ h => h.mono (emptier_of_eq rfl)) ?_ ?_ ?_ ?_
    · exact fun d' q s r s' hs h hreq hserved _ _ => h.mono (emptier_asked hs hreq hserved)
    · exact fun d' r s _ h => h.mono (emptier_leave V site d' r s)
    · exact fun s s' hs h hedit _ _ => h.mono (emptier_rely (((soundRuns V site).env s s' hs hedit).2 d).1)
    · exact fun d' s _ h => h.mono (emptier_restart s d')
  refine hruns.within (fun d' s hi => ?_)
  have hasks := Protocol.wp_within (I := fun s => Sound V site s ∧ Uploaded d queue n s) (keeps_runCycle (d := d') hi.1)
  by_cases hd : d' = d
  · subst hd
    refine Protocol.wp_mono (Protocol.wp_asked hasks (sends_runCycle queue _)) (fun _ s' h _ => ?_) (fun _ _ h => h)
    exact h n hi.2
  · exact Protocol.wp_mono hasks (fun _ _ _ h => absurd h hd) (fun _ _ h => h)

/-- A device that has nothing under way, and then comes to the end of a cycle. -/
theorem uploaded_of_done (hc : InCycles V site c) (hidle : c.running d = none) (hn : Uploaded d queue n c.store)
    (h : (world V site).Reach c c') (hdone : c'.running d = some (.pure ())) :
    Uploaded d queue (n + PENDING_LIMIT) c'.store := by
  have hkept : Threads.Kept (fun s => Sound V site s ∧ Uploaded d queue n s)
      (fun d' => (protocol V d' site).within (fun s => Sound V site s ∧ Uploaded d queue n s)) (TakesOff d queue n) c := by
    refine ⟨⟨hc.1, hn⟩, fun d' p hp => ?_⟩
    refine Protocol.wp_mono (Protocol.wp_within (hc.2 d' p hp)) (fun _ _ _ hd => ?_) (fun _ _ h => h)
    rw [hd, hidle] at hp
    cases hp
  have hreached := (takingRuns V site d queue n).reach hkept (h.restrict (fun _ _ _ _ => trivial) (fun _ _ => trivial))
  exact hreached.2 d _ hdone c'.store (Protocol.rely_refl _ _) rfl

/-! ## Counting cycles -/

/-- A state after a cycle has ended without error. -/
def ended (V : Vault D) (site : Site D β S) (d : D) (c : State D β S) : State D β S :=
  ⟨(world V site).leave d (.ok ()) c.store, Function.update c.running d none⟩

theorem finished_asked {d' : D} {q : Request β} {r : Except SyncError q.Reply} (h : Served site d' q s r s') :
    s'.ghost.finished = s.ghost.finished := by
  rcases h with ⟨wall, coin, heq⟩ | hmis
  · cases q with
    | call c =>
      obtain ⟨-, rfl⟩ := Prod.mk.inj heq
      rfl
    | query q =>
      obtain ⟨-, rfl⟩ := Prod.mk.inj heq
      rfl
  · cases hmis
    rfl

/-- Only the end of a cycle is counted. -/
theorem step_finished (h : (world V site).Step c c') :
    c'.store.ghost.finished d = c.store.ghost.finished d ∨ c.running d = some (.pure ()) ∧ c' = ended V site d c := by
  cases h with
  | done d' a h =>
    by_cases hd : d = d'
    · subst hd
      exact Or.inr ⟨h, rfl⟩
    · exact Or.inl (Function.update_of_ne hd _ _)
  | ask d' q k r s h hserved => exact Or.inl (congrFun (finished_asked hserved) d)
  | env s h =>
    obtain ⟨d', L, op, -, rfl⟩ := h.edited
    exact Or.inl rfl
  | _ => exact Or.inl rfl

theorem finished_ended (V : Vault D) (site : Site D β S) (d : D) (c : State D β S) :
    (ended V site d c).store.ghost.finished d = c.store.ghost.finished d + 1 := Function.update_self ..

/-- A run in which cycles end splits where the first one does. -/
theorem split_reach (h : (world V site).Reach c c') (hlt : c.store.ghost.finished d < c'.store.ghost.finished d) :
    ∃ c₁, (world V site).Reach c c₁ ∧ c₁.running d = some (.pure ()) ∧
      c₁.store.ghost.finished d ≤ c.store.ghost.finished d ∧ (world V site).Step c₁ (ended V site d c₁) ∧
      (world V site).Reach (ended V site d c₁) c' := by
  induction h with
  | refl => exact absurd hlt (lt_irrefl _)
  | @tail b c' hreach hstep ih =>
    by_cases hb : c.store.ghost.finished d < b.store.ghost.finished d
    · obtain ⟨c₁, hto, hdone, hle, hend, hrest⟩ := ih hb
      exact ⟨c₁, hto, hdone, hle, hend, hrest.tail hstep⟩
    · rcases step_finished (d := d) hstep with heq | ⟨hdone, rfl⟩
      · omega
      · exact ⟨b, hreach, hdone, not_lt.mp hb, hstep, Relation.ReflTransGen.refl⟩

/-- After each cycle, more has left the queue; the induction is on their number. -/
theorem uploaded_of_cycles : ∀ (m : ℕ) {c : State D β S} {n : ℕ}, InCycles V site c → c.running d = none →
    Uploaded d queue n c.store → (world V site).Reach c c' → c.store.ghost.finished d + m ≤ c'.store.ghost.finished d →
    Uploaded d queue (n + m * PENDING_LIMIT) c'.store
  | 0, c, n, hc, _, hn, h, _ => by
    rw [Nat.zero_mul]
    exact hn.mono (emptier_reach hc h)
  | m + 1, c, n, hc, hidle, hn, h, hcycles => by
    obtain ⟨c₁, hto, hdone, hle, hend, hrest⟩ := split_reach (d := d) h (by omega)
    have hup : Uploaded d queue (n + PENDING_LIMIT) (ended V site d c₁).store :=
      (uploaded_of_done hc hidle hn hto hdone).mono (emptier_leave V site d (.ok ()) c₁.store)
    have hfinished := finished_ended V site d c₁
    have hmore := uploaded_of_cycles m (hc.reach (hto.tail hend)) (Function.update_self ..) hup hrest (by omega)
    have hcount : n + (m + 1) * PENDING_LIMIT = n + PENDING_LIMIT + m * PENDING_LIMIT := by
      rw [Nat.succ_mul]
      omega
    rw [hcount]
    exact hmore

/-- In every run, at any destination: once a device has ended `n` further cycles without error, not counting one that is
under way, the first `n * PENDING_LIMIT` operations that its queue had have left the queue and are in stored objects. -/
theorem uploaded {dest : S} (hdest : site.holds dest = ∅) (h₀ : (world V site).Reach (start dest) c₀)
    (h : (world V site).Reach c₀ c)
    (hcycles : c₀.running d = none ∧ c₀.store.ghost.finished d + n ≤ c.store.ghost.finished d ∨
      c₀.store.ghost.finished d + n + 1 ≤ c.store.ghost.finished d) {o : LocalOperation β}
    (ho : o ∈ (c₀.store.device d).ledger.unsynced.take (n * PENDING_LIMIT)) :
    Stored c.store o.toOperation ∧ ∀ o' ∈ (c.store.device d).ledger.unsynced, o'.toOperation ≠ o.toOperation := by
  have hc₀ : InCycles V site c₀ := kept_of_reach hdest h₀
  have hfirst : Uploaded d (c₀.store.device d).ledger.unsynced 0 c₀.store :=
    ⟨0, by rw [Nat.zero_min], gone_zero (List.prefix_refl _)⟩
  have hup : Uploaded d (c₀.store.device d).ledger.unsynced (n * PENDING_LIMIT) c.store := by
    rcases hcycles with ⟨hidle, hcycles⟩ | hcycles
    · exact Nat.zero_add (n * PENDING_LIMIT) ▸ uploaded_of_cycles n hc₀ hidle hfirst h hcycles
    · -- the cycle that is under way comes to an end first
      obtain ⟨c₁, hto, -, hle, hend, hrest⟩ := split_reach (d := d) h (by omega)
      have hfinished := finished_ended V site d c₁
      have hreach := hto.tail hend
      exact Nat.zero_add (n * PENDING_LIMIT) ▸ uploaded_of_cycles n (hc₀.reach hreach) (Function.update_self ..)
        (hfirst.mono (emptier_reach hc₀ hreach)) hrest (by omega)
  obtain ⟨j, hj, hgone⟩ := hup
  have hsent : { o with synced := true } ∈ (c.store.device d).ledger.oplog := by
    refine hgone.sent o (List.IsPrefix.subset (List.take_prefix_take_left hj) ?_)
    rwa [← List.take_eq_take_min]
  have hqueued := Ledger.mem_unsynced.mp (List.mem_of_mem_take ho)
  obtain ⟨hauthored, hdevice⟩ := (hc₀.1.devices d).unsent o hqueued.1 hqueued.2
  refine ⟨(sent_of_reach hdest (h₀.trans h)).2 d { o with synced := true } hsent rfl ((grown_reach hc₀ h).authored _ hauthored) hdevice, ?_⟩
  intro o' ho' heq
  obtain ⟨hlog, hsync⟩ := Ledger.mem_unsynced.mp ho'
  have hsame : o' = { o with synced := true } := Table.eq_of_key_eq hlog hsent (congrArg Operation.hlc heq)
  rw [hsame] at hsync
  cases hsync

end Runs

/-- Device `a` has two operations in its queue. -/
def queuedTwo : TrioState :=
  trioPlay trioStart [.put .a 5 .accounts (js "x") (), .put .a 6 .accounts (js "y") ()]

/-- Device `a` has ended a cycle, and edited meanwhile. -/
def sentTwo : TrioState :=
  trioPlay queuedTwo [.begin .a, .ask .a 7 2, .put .a 7 .accounts (js "z") (), .finish .a 8]

theorem uploaded_sentTwo : (queuedTwo.store.device .a).ledger.unsynced.length = 2 ∧
    ∀ o ∈ (queuedTwo.store.device .a).ledger.unsynced, Stored sentTwo.store o.toOperation := by
  have h₀ : trioWorld.Reach trioStart queuedTwo := reach_play _
  have h : trioWorld.Reach queuedTwo sentTwo := reach_play _
  have hcycles : queuedTwo.store.ghost.finished .a + 1 ≤ sentTwo.store.ghost.finished .a := by decide +kernel
  have hshort : (queuedTwo.store.device .a).ledger.unsynced.length = 2 := by decide +kernel
  refine ⟨hshort, fun o ho => (uploaded (n := 1) mapSite_empty h₀ h (Or.inl ⟨rfl, hcycles⟩) ?_).1⟩
  rw [List.take_of_length_le (by rw [hshort]; decide)]
  exact ho

end EasyDocket
