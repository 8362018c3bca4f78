import EasyDocket.Sync.Runs
import EasyDocket.Sync.MapSite

/-!
# Scripted runs

A run written down move by move, over a transport that works.  `reach_play` makes it a run of the system, so that what
it leads to can be computed.  `reach_burst` is a run of its own: one entity put over and over, whose ledger is known in
closed form.
-/

namespace EasyDocket

variable {D β S : Type} [DecidableEq D]

/-- One move of a run. -/
inductive Move (D β : Type)
  | put (d : D) (wall : ℕ) (e : EntityName) (id : JsString) (body : β)
  | remove (d : D) (wall : ℕ) (e : EntityName) (id : JsString)
  | begin (d : D)
  /-- The next `n` requests of a cycle. -/
  | ask (d : D) (wall : ℕ) (n : ℕ)
  /-- The rest of a cycle. -/
  | finish (d : D) (wall : ℕ)

/-- A state of the system. -/
abbrev State (D β S : Type) := Conf D (Request β) Request.Reply SyncError Unit (Store D β S)

/-- A handler with a clock that stands still. -/
def handler (site : Site D β S) (d : D) (wall : ℕ) (q : Request β) (s : Store D β S) :
    Except SyncError q.Reply × Store D β S := serve site d (fun _ => wall) 0 q s

/-- The state after a move. -/
def play (V : Vault D) (site : Site D β S) (c : State D β S) : Move D β → State D β S
  | .put d wall e id body =>
    match (c.store.device d).ledger.put (V.deviceId d) wall e id body with
    | .ok (L, op) => ⟨c.store.afterEdit d L op, c.running⟩
    | .error _ => c
  | .remove d wall e id =>
    match (c.store.device d).ledger.remove (V.deviceId d) wall e id with
    | .ok (L, op) => ⟨c.store.afterEdit d L op, c.running⟩
    | .error _ => c
  | .begin d =>
    match c.running d with
    | none => ⟨(world V site).enter d c.store, Function.update c.running d (some ((world V site).body d))⟩
    | some _ => c
  | .ask d wall n =>
    match c.running d with
    | some p => ⟨(p.runFor (handler site d wall) n c.store).2,
        Function.update c.running d (some (p.runFor (handler site d wall) n c.store).1)⟩
    | none => c
  | .finish d wall =>
    match c.running d with
    | some p => ⟨(world V site).leave d (p.run (handler site d wall) c.store).1 (p.run (handler site d wall) c.store).2,
        Function.update c.running d none⟩
    | none => c

/-- Whether the requests of a move meet a check, and an edit another. -/
def meetsMove (site : Site D β S) (C : D → Request β → Store D β S → Store D β S → Bool)
    (E : Store D β S → Bool) (c : State D β S) : Move D β → Bool
  | .put .. => E c.store
  | .remove .. => E c.store
  | .begin _ => true
  | .ask d wall n =>
    match c.running d with
    | some p => p.meetsFor (C d) (handler site d wall) n c.store
    | none => true
  | .finish d wall =>
    match c.running d with
    | some p => p.meets (C d) (handler site d wall) c.store
    | none => true

/-- Whether every move meets the checks. -/
def meetsMoves (V : Vault D) (site : Site D β S) (C : D → Request β → Store D β S → Store D β S → Bool)
    (E : Store D β S → Bool) : State D β S → List (Move D β) → Bool
  | _, [] => true
  | c, m :: ms => meetsMove site C E c m && meetsMoves V site C E (play V site c m) ms

/-- The object a program is about to remove. -/
def removes : Option (Sync β Unit) → Option ObjectName
  | some (.ask (.call (.remove n)) _) => some n
  | _ => none

theorem asks_of_removes {o : Option (Sync β Unit)} {n : ObjectName} (h : removes o = some n) :
    ∃ k, o = some (.ask (.call (.remove n)) k) := by
  unfold removes at h
  split at h
  · cases h
    exact ⟨_, rfl⟩
  · cases h

section Play

variable {V : Vault D} {site : Site D β S} {c : State D β S} {C : D → Request β → Store D β S → Store D β S → Bool}
  {E : Store D β S → Bool} {okStep : D → Request β → Store D β S → Store D β S → Prop}
  {okEnv : Store D β S → Store D β S → Prop}

theorem served_handler (d : D) (wall : ℕ) (q : Request β) (s : Store D β S) :
    (world V site).step d q s (handler site d wall q s).1 (handler site d wall q s).2 :=
  Or.inl ⟨fun _ => wall, 0, rfl⟩

theorem reach_move (hC : ∀ d q s s', C d q s s' = true → okStep d q s s')
    (hE : ∀ s s', E s = true → Edit V s s' → okEnv s s') (m : Move D β) (hm : meetsMove site C E c m = true) :
    ((world V site).restrict okStep okEnv).Reach c (play V site c m) := by
  cases m with
  | put d wall e id body =>
    simp only [play]
    split
    · rename_i L op h
      have hedit := Edit.put (V := V) c.store d wall e id body L op h
      exact Relation.ReflTransGen.single (Threads.Step.env c _ ⟨hedit, hE _ _ hm hedit⟩)
    · exact Relation.ReflTransGen.refl
  | remove d wall e id =>
    simp only [play]
    split
    · rename_i L op h
      have hedit := Edit.remove (V := V) c.store d wall e id L op h
      exact Relation.ReflTransGen.single (Threads.Step.env c _ ⟨hedit, hE _ _ hm hedit⟩)
    · exact Relation.ReflTransGen.refl
  | begin d =>
    simp only [play]
    split
    · rename_i h
      exact Relation.ReflTransGen.single (Threads.Step.enter c d h)
    · exact Relation.ReflTransGen.refl
  | ask d wall n =>
    simp only [play]
    split
    · rename_i p h
      simp only [meetsMove, h] at hm
      exact Threads.reach_runFor (fun q s _ => served_handler d wall q s) (hC d) n p c h hm
    · exact Relation.ReflTransGen.refl
  | finish d wall =>
    simp only [play]
    split
    · rename_i p h
      simp only [meetsMove, h] at hm
      exact Threads.reach_run (fun q s _ => served_handler d wall q s) (hC d) p c h hm
    · exact Relation.ReflTransGen.refl

/-- A script whose moves meet the checks is a run of the restricted system. -/
theorem reach_meetsMoves (hC : ∀ d q s s', C d q s s' = true → okStep d q s s')
    (hE : ∀ s s', E s = true → Edit V s s' → okEnv s s') : ∀ (moves : List (Move D β)) (c : State D β S),
    meetsMoves V site C E c moves = true →
      ((world V site).restrict okStep okEnv).Reach c (moves.foldl (play V site) c)
  | [], _, _ => Relation.ReflTransGen.refl
  | m :: ms, c, h => by
    obtain ⟨hm, hms⟩ := Bool.and_eq_true_iff.mp h
    exact (reach_move hC hE m hm).trans (reach_meetsMoves hC hE ms _ hms)

theorem meetsMoves_true : ∀ (moves : List (Move D β)) (c : State D β S),
    meetsMoves V site (fun _ _ _ _ => true) (fun _ => true) c moves = true
  | [], _ => rfl
  | m :: ms, c => by
    refine Bool.and_eq_true_iff.mpr ⟨?_, meetsMoves_true ms _⟩
    cases m with
    | ask d wall n =>
      simp only [meetsMove]
      split
      · exact Prog.meetsFor_true n _ _
      · rfl
    | finish d wall =>
      simp only [meetsMove]
      split
      · exact Prog.meets_true _ _
      · rfl
    | _ => rfl

/-- A cycle that runs to its end, with another source of randomness. -/
theorem reach_cycle {d : D} {p : Sync β Unit} (h : c.running d = some p) (wall coin : ℕ) :
    (world V site).Reach c ⟨(world V site).leave d (p.run (serve site d (fun _ => wall) coin) c.store).1
      (p.run (serve site d (fun _ => wall) coin) c.store).2, Function.update c.running d none⟩ := by
  have hrun : ((world V site).restrict (fun _ _ _ _ => True) (fun _ _ => True)).Reach c _ :=
    Threads.reach_run (C := fun _ _ _ => true) (H := serve site d (fun _ => wall) coin)
      (fun q s _ => Or.inl ⟨fun _ => wall, coin, rfl⟩) (fun _ _ _ _ => trivial) p c h (Prog.meets_true p c.store)
  exact hrun.of_restrict

/-- A script is a run of the system. -/
theorem reach_play (moves : List (Move D β)) : (world V site).Reach c (moves.foldl (play V site) c) := by
  have h : ((world V site).restrict (fun _ _ _ _ => True) (fun _ _ => True)).Reach c (moves.foldl (play V site) c) :=
    reach_meetsMoves (fun _ _ _ _ _ => trivial) (fun _ _ _ _ => trivial) moves c (meetsMoves_true moves c)
  exact h.of_restrict

end Play

/-! ## Bursts -/

section Burst

variable (device : JsString) (e : EntityName) (id : JsString) (body : β) (L : Ledger β)

/-- The row the `n`-th put of a burst leaves; readings of the clock go up by one. -/
def burstRow (n : ℕ) : Row β := ⟨id, ⟨L.clock.physical + n, 0, device⟩, body⟩

/-- The operation of the `n`-th put of a burst. -/
def burstOp (n : ℕ) : Operation β :=
  ⟨⟨L.clock.physical + n, 0, device⟩, e, id, .put, some (burstRow device id body L n), device⟩

def burstLog (n : ℕ) : List (LocalOperation β) :=
  L.oplog.rows ++ (List.range n).map (fun i => ⟨burstOp device e id body L (i + 1), false⟩)

/-- Nothing in the log is ahead of the physical clock. -/
def Behind : Prop := ∀ o ∈ L.oplog.rows, o.hlc.physical ≤ L.clock.physical

theorem burstLog_succ (n : ℕ) : burstLog device e id body L (n + 1) =
    burstLog device e id body L n ++ [⟨burstOp device e id body L (n + 1), false⟩] := by
  unfold burstLog
  rw [List.range_succ, List.map_append, List.append_assoc]
  rfl

theorem burstLog_lt {L : Ledger β} (h : Behind L) {n : ℕ} :
    ∀ o ∈ burstLog device e id body L n, o.hlc < (burstOp device e id body L (n + 1)).hlc := by
  intro o ho
  refine Stamp.lt_of_time_lt (Stamp.time_lt_iff.mpr (Or.inl ?_))
  show _ < L.clock.physical + (n + 1)
  rcases List.mem_append.mp ho with ho | ho
  · have := h o ho
    omega
  · obtain ⟨i, hi, rfl⟩ := List.mem_map.mp ho
    have := List.mem_range.mp hi
    show L.clock.physical + (i + 1) < _
    omega

theorem burstLog_sorted {L : Ledger β} (h : Behind L) (n : ℕ) :
    (burstLog device e id body L n).Pairwise (fun a b => a.hlc < b.hlc) := by
  induction n with
  | zero =>
    unfold burstLog
    rw [List.range_zero, List.map_nil, List.append_nil]
    exact L.oplog.sorted
  | succ n ih =>
    rw [burstLog_succ]
    refine List.pairwise_append.mpr ⟨ih, List.pairwise_singleton _ _, fun o ho o' ho' => ?_⟩
    rw [List.mem_singleton.mp ho']
    exact burstLog_lt device e id body h o ho

/-- The ledger after `n` puts of one entity. -/
def burst {L : Ledger β} (h : Behind L) : ℕ → Ledger β
  | 0 => L
  | n + 1 =>
    { tables := Function.update L.tables e ((L.tables e).put (burstRow device id body L (n + 1)))
      oplog := ⟨burstLog device e id body L (n + 1), burstLog_sorted device e id body h (n + 1)⟩
      clockState := some ⟨L.clock.physical + (n + 1), 0⟩
      clock := ⟨L.clock.physical + (n + 1), 0⟩ }

/-- The next put of a burst. -/
theorem put_burst {L : Ledger β} (h : Behind L) (n : ℕ) :
    (burst device e id body h n).put device (L.clock.physical + (n + 1)) e id body =
      .ok (burst device e id body h (n + 1), burstOp device e id body L (n + 1)) := by
  have hphys : (burst device e id body h n).clock.physical = L.clock.physical + n := by cases n <;> rfl
  have htick : (burst device e id body h n).clock.tick (L.clock.physical + (n + 1)) =
      .ok ⟨L.clock.physical + (n + 1), 0⟩ := if_pos (by omega)
  have hrows : (burst device e id body h n).oplog.rows = burstLog device e id body L n := by
    cases n with
    | zero => exact (List.append_nil _).symm
    | succ n => rfl
  have hlog : (burst device e id body h n).oplog.put ⟨burstOp device e id body L (n + 1), false⟩ =
      (burst device e id body h (n + 1)).oplog := by
    refine Table.put_last (fun o ho => burstLog_lt device e id body h o (hrows ▸ ho)) ?_
    rw [hrows]
    exact burstLog_succ device e id body L n
  have htable : Function.update (burst device e id body h n).tables e
      (((burst device e id body h n).tables e).put (burstRow device id body L (n + 1))) =
        (burst device e id body h (n + 1)).tables := by
    cases n with
    | zero => rfl
    | succ n =>
      show Function.update (Function.update L.tables e _) e ((Function.update L.tables e _ e).put _) = _
      rw [Function.update_idem, Function.update_self]
      exact congrArg (Function.update L.tables e) (Table.put_put rfl)
  rw [Ledger.put_of_tick htick]
  exact congrArg (fun L' => Except.ok (L', _)) (Ledger.ext htable hlog rfl rfl)

end Burst

section Burst

variable {V : Vault D} {site : Site D β S} {okStep : D → Request β → Store D β S → Store D β S → Prop}
  {okEnv : Store D β S → Store D β S → Prop} (c : State D β S) (d : D) (e : EntityName) (id : JsString) (body : β)

/-- The operations authored once a burst has added `n`. -/
def burstAuthored (device : JsString) (L : Ledger β) (A : Set (Operation β)) : ℕ → Set (Operation β)
  | 0 => A
  | n + 1 => insert (burstOp device e id body L (n + 1)) (burstAuthored device L A n)

/-- The state after a burst of `n` puts on one device. -/
def playBurst (V : Vault D) (h : Behind (c.store.device d).ledger) (n : ℕ) : State D β S :=
  ⟨{ c.store.withDevice d { c.store.device d with ledger := burst (V.deviceId d) e id body h n } with
      ghost := { c.store.ghost with
        authored := burstAuthored e id body (V.deviceId d) (c.store.device d).ledger c.store.ghost.authored n } },
    c.running⟩

theorem reach_playBurst_restrict (h : Behind (c.store.device d).ledger)
    (hE : ∀ n, okEnv (playBurst c d e id body V h n).store (playBurst c d e id body V h (n + 1)).store) (n : ℕ) :
    ((world V site).restrict okStep okEnv).Reach c (playBurst c d e id body V h n) := by
  induction n with
  | zero =>
    have hc : playBurst c d e id body V h 0 = c := by
      show (⟨{ c.store with device := Function.update c.store.device d (c.store.device d) }, c.running⟩ :
        State D β S) = c
      rw [Function.update_eq_self]
    rw [hc]
    exact Relation.ReflTransGen.refl
  | succ n ih =>
    refine ih.tail ?_
    have hself : (playBurst c d e id body V h n).store.device d =
        { c.store.device d with ledger := burst (V.deviceId d) e id body h n } := Function.update_self ..
    have hput := put_burst (V.deviceId d) e id body h n
    have hedit := Edit.put (V := V) (playBurst c d e id body V h n).store d _ e id body _ _ (by rw [hself]; exact hput)
    unfold Store.afterEdit Store.withDevice at hedit
    rw [hself] at hedit
    have hnext : Function.update (playBurst c d e id body V h n).store.device d
        { c.store.device d with ledger := burst (V.deviceId d) e id body h (n + 1) } =
          (playBurst c d e id body V h (n + 1)).store.device := Function.update_idem ..
    simp only [hnext] at hedit
    exact Threads.Step.env (T := (world V site).restrict okStep okEnv) (playBurst c d e id body V h n) _ ⟨hedit, hE n⟩

theorem reach_playBurst (h : Behind (c.store.device d).ledger) (n : ℕ) :
    (world V site).Reach c (playBurst c d e id body V h n) := by
  have hr : ((world V site).restrict (fun _ _ _ _ => True) (fun _ _ => True)).Reach c (playBurst c d e id body V h n) :=
    reach_playBurst_restrict c d e id body h (fun _ => trivial) n
  exact hr.of_restrict

end Burst

/-! ## A vault to run scripts in -/

inductive Trio
  | a
  | b
  | c
  deriving DecidableEq

/-- A vault of three devices. -/
def trio : Vault Trio where
  vaultId := js "v"
  deviceId := fun d => match d with
    | .a => js "a"
    | .b => js "b"
    | .c => js "c"
  distinct := by
    intro d d'
    cases d <;> cases d' <;> decide
  alnum := by
    intro d
    have hall : (match d with
        | .a => js "a"
        | .b => js "b"
        | .c => js "c").all isAlnum = true := by
      cases d <;> decide
    exact fun c hc => List.all_eq_true.mp hall c hc

/-- The system of `trio`, with a map as its destination. -/
abbrev trioWorld := world trio (mapSite Trio Unit)

abbrev TrioState := State Trio Unit (ObjectMap Unit)

/-- Nothing has happened yet. -/
def trioStart : TrioState := start Table.empty

abbrev trioPlay (c : TrioState) (moves : List (Move Trio Unit)) : TrioState :=
  moves.foldl (play trio (mapSite Trio Unit)) c

end EasyDocket
