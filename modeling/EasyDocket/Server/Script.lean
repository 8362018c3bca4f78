import EasyDocket.Server.Calls

/-!
# Scripts of calls

Runs of the callers of a store that are written down: who calls, who is served for a while, whose request fails, who
returns.
-/

namespace EasyDocket

namespace Server

/-- The calls under way over a world. -/
abbrev Calling := Conf Party FsRequest FsRequest.Reply StoreError Outcome World

inductive Move
  | enter (d : Party)
  /-- The next requests of a caller. -/
  | ask (d : Party) (n : ℕ)
  /-- The next request of a caller, which fails. -/
  | fail (d : Party)
  /-- All requests of a caller, and its return. -/
  | finish (d : Party)

section Moves

variable (s : FSStore) (opts : Options)

/-- How a request of a script is served. -/
def handler (d : Party) (choice : Choice) (q : FsRequest) (w : World) : Except StoreError q.Reply × World :=
  (.ok (serve choice q w.machine).1, w.after s d choice q)

/-- A lock that is asked for is free. -/
def unhindered (q : FsRequest) (w : World) : Bool :=
  match q with
  | .lock account => (w.holder account).isNone
  | _ => true

def play (c : Calling) : Move → Calling
  | .enter d =>
    match c.running d with
    | none => ⟨c.store.enter d, Function.update c.running d (some (program s opts d.1))⟩
    | some _ => c
  | .ask d n =>
    match c.running d with
    | none => c
    | some p => ⟨(p.runFor (handler s d .smooth) n c.store).2,
        Function.update c.running d (some (p.runFor (handler s d .smooth) n c.store).1)⟩
  | .fail d =>
    match c.running d with
    | none => c
    | some p => ⟨(p.runFor (handler s d .failing) 1 c.store).2,
        Function.update c.running d (some (p.runFor (handler s d .failing) 1 c.store).1)⟩
  | .finish d =>
    match c.running d with
    | none => c
    | some p => ⟨(p.run (handler s d .smooth) c.store).2.leave d (p.run (handler s d .smooth) c.store).1,
        Function.update c.running d none⟩

/-- Whether a move of a script meets a check at every request. -/
def meets (C : FsRequest → World → Bool) (c : Calling) : Move → Bool
  | .enter _ => true
  | .ask d n =>
    match c.running d with
    | none => true
    | some p => p.meetsFor (fun q w _ => unhindered q w && C q w) (handler s d .smooth) n c.store
  | .fail d =>
    match c.running d with
    | none => true
    | some p => p.meetsFor (fun q w _ => unhindered q w && C q w) (handler s d .failing) 1 c.store
  | .finish d =>
    match c.running d with
    | none => true
    | some p => p.meets (fun q w _ => unhindered q w && C q w) (handler s d .smooth) c.store

def meetsAll (C : FsRequest → World → Bool) : Calling → List Move → Bool
  | _, [] => true
  | c, m :: moves => meets s C c m && meetsAll C (play s opts c m) moves

variable {s opts} {C : FsRequest → World → Bool} {okStep : Party → FsRequest → World → World → Prop}
  {okEnv : World → World → Prop}

theorem served_handler (d : Party) (choice : Choice) (q : FsRequest) (w : World) (h : (unhindered q w && C q w) = true) :
    (calls s opts).step d q w (handler s d choice q w).1 (handler s d choice q w).2 := by
  refine ⟨fun account hq => ?_, choice, rfl, rfl⟩
  subst hq
  exact Option.isNone_iff_eq_none.mp (Bool.and_eq_true_iff.mp h).1

theorem reach_play (hC : ∀ d q w w', C q w = true → okStep d q w w') {c : Calling} (m : Move) (h : meets s C c m = true) :
    ((calls s opts).restrict okStep okEnv).Reach c (play s opts c m) := by
  have hok : ∀ (d : Party) (q : FsRequest) (w w' : World), (unhindered q w && C q w) = true → okStep d q w w' :=
    fun d q w w' hq => hC d q w w' (Bool.and_eq_true_iff.mp hq).2
  cases m with
  | enter d =>
    simp only [play]
    split
    · rename_i hrun
      exact Relation.ReflTransGen.single (Threads.Step.enter c d hrun)
    · exact Relation.ReflTransGen.refl
  | ask d n =>
    simp only [play]
    split
    · exact Relation.ReflTransGen.refl
    · rename_i p hrun
      simp only [meets, hrun] at h
      exact Threads.reach_runFor (served_handler d .smooth) (hok d) n p c hrun h
  | fail d =>
    simp only [play]
    split
    · exact Relation.ReflTransGen.refl
    · rename_i p hrun
      simp only [meets, hrun] at h
      exact Threads.reach_runFor (served_handler d .failing) (hok d) 1 p c hrun h
  | finish d =>
    simp only [play]
    split
    · exact Relation.ReflTransGen.refl
    · rename_i p hrun
      simp only [meets, hrun] at h
      exact Threads.reach_run (served_handler d .smooth) (hok d) p c hrun h

/-- A script whose requests meet the check is a run of the restricted system. -/
theorem reach_script (hC : ∀ d q w w', C q w = true → okStep d q w w') : ∀ (moves : List Move) (c : Calling),
    meetsAll s opts C c moves = true → ((calls s opts).restrict okStep okEnv).Reach c (moves.foldl (play s opts) c)
  | [], _, _ => Relation.ReflTransGen.refl
  | m :: moves, c, h => by
    obtain ⟨hm, hms⟩ := Bool.and_eq_true_iff.mp h
    exact (reach_play hC m hm).trans (reach_script hC moves _ hms)

/-- A script is a run. -/
theorem reach_moves (moves : List Move) (c : Calling) (h : meetsAll s opts (fun _ _ => true) c moves = true) :
    (calls s opts).Reach c (moves.foldl (play s opts) c) :=
  have hrun : ((calls s opts).restrict (fun _ _ _ _ => True) (fun _ _ => True)).Reach c (moves.foldl (play s opts) c) :=
    reach_script (fun _ _ _ _ _ => trivial) moves c h
  hrun.of_restrict

end Moves

/-- What a caller is about to return as a listing. -/
def listedOf : Option (Fs Outcome) → Option (List FSStore.Object)
  | some (.pure (.ok (.listed objects))) => some objects
  | _ => none

theorem listedOf_eq_some {p : Option (Fs Outcome)} {objects : List FSStore.Object} (h : listedOf p = some objects) :
    p = some (.pure (.ok (.listed objects))) := by
  unfold listedOf at h
  split at h
  · rw [Option.some.inj h]
  · cases h

end Server

end EasyDocket
