import EasyDocket.Sync.Runs
import EasyDocket.Sync.MapSite
import EasyDocket.Sync.NameText
import Mathlib.Data.Fintype.Pi
import Mathlib.Algebra.BigOperators.Group.List.Basic

/-!
# The bundled server as a destination

What `ServerAdapter` gets from the server: the names it takes, the limits it keeps, and the objects of the account, which
are immutable.  Identical bytes under an existing name are accepted, different ones are refused.
-/

namespace EasyDocket

variable {D β : Type}

/-! ## Comparing bytes -/

instance : Fintype EntityName := ⟨ENTITY_NAMES.toFinset, fun e => by cases e <;> decide⟩

deriving instance DecidableEq for Row
deriving instance DecidableEq for Operation
deriving instance DecidableEq for OperationBatch
deriving instance DecidableEq for LedgerSnapshot
deriving instance DecidableEq for Payload
deriving instance DecidableEq for Envelope

/-! ## Names -/

/-- Whether the server takes a name. -/
def takes (n : ObjectName) : Bool :=
  match asciiBytes n.text with
  | some bytes => decide (Server.validateName bytes = .ok ())
  | none => false

theorem takes_iff {n : ObjectName} : takes n = true ↔ ServerTakes n.text := by
  unfold takes ServerTakes
  cases h : asciiBytes n.text with
  | none => simp
  | some bytes => simp

/-- Whether the server lists a prefix. -/
def lists (vault : JsString) (kind : ObjectKind) : Bool :=
  match asciiBytes (objectPrefix vault kind) with
  | some bytes => decide (Server.validatePrefix bytes = .ok ())
  | none => false

theorem lists_of_uuid {vault : JsString} (hv : IsUuid vault) (kind : ObjectKind) : lists vault kind = true := by
  obtain ⟨bytes, hbytes, hvalid⟩ := serverLists_prefix hv kind
  unfold lists
  rw [hbytes]
  exact decide_eq_true hvalid

theorem bytes_of_asciiBytes {s : JsString} {bytes : Server.GoString} (h : asciiBytes s = some bytes) : bytes = s.map byteOf := by
  unfold asciiBytes at h
  split_ifs at h
  exact (Option.some.inj h).symm

/-- The third segment of a name is the directory of its kind. -/
theorem split_text {n : ObjectName} (hv : IsUuid n.vault) : ∃ rest,
    Server.splitSlash (n.text.map byteOf) = Server.go "vaults" :: n.vault.map byteOf :: Server.go n.kind.segment :: rest := by
  have hvault : Server.slash ∉ n.vault.map byteOf :=
    fun h => Bool.false_ne_true (Server.isIdByte_slash.symm.trans (sameClass_uuid.bytes hv.units _ h))
  have hsegment : Server.slash ∉ Server.go n.kind.segment := by cases n.kind <;> decide
  have hvaults : Server.slash ∉ Server.go "vaults" := by decide
  have htext : n.text.map byteOf = Server.go "vaults" ++ Server.slash :: (n.vault.map byteOf ++ Server.slash ::
      (Server.go n.kind.segment ++ Server.slash :: (n.stamp.text ++ js ".edk").map byteOf)) := by
    show (objectPrefix n.vault n.kind ++ n.stamp.text ++ js ".edk").map byteOf = _
    rw [objectPrefix_eq, List.append_assoc]
    simp only [List.map_append, js_bytes]
    rw [show Server.go "vaults/" = Server.go "vaults" ++ [Server.slash] from rfl,
      show Server.go n.kind.directory = Server.slash :: (Server.go n.kind.segment ++ [Server.slash]) by cases n.kind <;> rfl]
    simp only [List.append_assoc, List.cons_append, List.nil_append]
  refine ⟨Server.splitSlash ((n.stamp.text ++ js ".edk").map byteOf), ?_⟩
  rw [htext, Server.splitSlash_append, Server.splitSlash_append, Server.splitSlash_append,
    Server.splitSlash_of_no_slash hvaults, Server.splitSlash_of_no_slash hvault, Server.splitSlash_of_no_slash hsegment]
  rfl

/-- The server takes no snapshot, whatever its stamp. -/
theorem not_takes_snapshot {n : ObjectName} (hv : IsUuid n.vault) (hk : n.kind = .snapshot) : takes n = false := by
  rw [Bool.eq_false_iff, Ne, takes_iff]
  rintro ⟨bytes, hbytes, hvalid⟩
  obtain ⟨vault, file, hparts⟩ := Server.validateName_ok hvalid
  obtain ⟨rest, hsplit⟩ := split_text hv
  rw [← bytes_of_asciiBytes hbytes, hparts.split, hk] at hsplit
  simp only [List.cons.injEq] at hsplit
  exact absurd hsplit.2.2.1 (by decide)

/-! ## The objects of the account -/

/-- What a server allows. -/
structure ServerLimits (β : Type) where
  /-- How many bytes a sealed object has. -/
  size : EnvelopeHeader → Payload β → ℕ
  maxObjectSize : ℕ
  /-- How many bytes an account may store; zero means unlimited. -/
  quota : ℕ

namespace ServerLimits

variable (limits : ServerLimits β)

def sizeOf (bytes : Envelope β) : ℕ := limits.size bytes.header bytes.payload

/-- `usage`. -/
def usage (m : ObjectMap β) : ℕ := (m.rows.map (fun p => limits.sizeOf p.2)).sum

/-- Whether the server stores a new object. -/
structure Stores (name : ObjectName) (bytes : Envelope β) (m : ObjectMap β) : Prop where
  small : limits.sizeOf bytes ≤ limits.maxObjectSize
  positive : 0 < limits.sizeOf bytes
  taken : takes name = true
  unused : m.get? name = none
  room : limits.quota = 0 ∨ limits.usage m + limits.sizeOf bytes ≤ limits.quota

variable {limits} {name : ObjectName} {bytes : Envelope β} {m : ObjectMap β}

theorem usage_put (h : limits.Stores name bytes m) : limits.usage (m.put (name, bytes)) = limits.usage m + limits.sizeOf bytes := by
  have hperm : (m.put (name, bytes)).rows.Perm ((name, bytes) :: m.rows) :=
    Table.insertRow_perm (Table.get?_eq_none.mp h.unused)
  unfold usage
  rw [(hperm.map _).sum_eq, List.map_cons, List.sum_cons, Nat.add_comm]

variable [DecidableEq β]

variable (limits) in
/-- `handlePut`, with `FSStore.Put` inside. -/
def put (name : ObjectName) (bytes : Envelope β) (m : ObjectMap β) : Except SyncError Unit × ObjectMap β :=
  if limits.maxObjectSize < limits.sizeOf bytes then (.error (.transport false), m)
  else if limits.sizeOf bytes = 0 then (.error (.transport false), m)
  else if takes name = false then (.error (.transport false), m)
  else match m.get? name with
    | some existing => if existing.2 = bytes then (.ok (), m) else (.error (.transport false), m)
    | none =>
      if 0 < limits.quota ∧ limits.quota < limits.usage m + limits.sizeOf bytes then (.error (.transport true), m)
      else (.ok (), m.put (name, bytes))

variable (limits) in
/-- Serve a call. -/
def serve : (c : Call β) → ObjectMap β → Except SyncError c.Reply × ObjectMap β
  | .list vault kind, m => (if lists vault kind then .ok (m.list vault kind) else .error (.transport false), m)
  | .get name, m => (if takes name then (ObjectMap.serve (.get name) m).1 else .error (.transport false), m)
  | .put name bytes, m => limits.put name bytes m
  | .remove name, m => if takes name then (.ok (), m.delete name) else (.error (.transport false), m)
  | .flush, m => (.ok (), m)

theorem put_of_stores (h : limits.Stores name bytes m) : limits.put name bytes m = (.ok (), m.put (name, bytes)) := by
  have hroom : ¬ (0 < limits.quota ∧ limits.quota < limits.usage m + limits.sizeOf bytes) := by
    rcases h.room with h | h <;> omega
  unfold put
  rw [if_neg (not_lt.mpr h.small), if_neg h.positive.ne', if_neg (by rw [h.taken]; exact Bool.noConfusion), h.unused]
  exact if_neg hroom

/-- What a put may do: store the object, find the same bytes there, or fail. -/
theorem put_cases (limits : ServerLimits β) (name : ObjectName) (bytes : Envelope β) (m : ObjectMap β) :
    (limits.Stores name bytes m ∧ limits.put name bytes m = (.ok (), m.put (name, bytes))) ∨
    (takes name = true ∧ (name, bytes) ∈ m ∧ limits.put name bytes m = (.ok (), m)) ∨
    ∃ e, limits.put name bytes m = (.error e, m) := by
  by_cases hsize : limits.maxObjectSize < limits.sizeOf bytes
  · exact Or.inr (Or.inr ⟨_, if_pos hsize⟩)
  by_cases hzero : limits.sizeOf bytes = 0
  · exact Or.inr (Or.inr ⟨_, by rw [put, if_neg hsize, if_pos hzero]⟩)
  by_cases htakes : takes name = false
  · exact Or.inr (Or.inr ⟨_, by rw [put, if_neg hsize, if_neg hzero, if_pos htakes]⟩)
  have htaken : takes name = true := (Bool.not_eq_false _).mp htakes
  cases hget : m.get? name with
  | some existing =>
    have hput : limits.put name bytes m =
        if existing.2 = bytes then (.ok (), m) else (.error (.transport false), m) := by
      rw [put, if_neg hsize, if_neg hzero, if_neg htakes, hget]
    rw [hput]
    by_cases hsame : existing.2 = bytes
    · obtain ⟨hmem, rfl⟩ := Table.get?_eq_some.mp hget
      rw [if_pos hsame, ← hsame]
      exact Or.inr (Or.inl ⟨htaken, hmem, rfl⟩)
    · rw [if_neg hsame]
      exact Or.inr (Or.inr ⟨_, rfl⟩)
  | none =>
    by_cases hroom : limits.quota = 0 ∨ limits.usage m + limits.sizeOf bytes ≤ limits.quota
    · have hstores : limits.Stores name bytes m := ⟨not_lt.mp hsize, Nat.pos_of_ne_zero hzero, htaken, hget, hroom⟩
      exact Or.inl ⟨hstores, put_of_stores hstores⟩
    · have hfull : 0 < limits.quota ∧ limits.quota < limits.usage m + limits.sizeOf bytes := by omega
      refine Or.inr (Or.inr ⟨.transport true, ?_⟩)
      rw [put, if_neg hsize, if_neg hzero, if_neg htakes, hget]
      exact if_pos hfull

theorem mem_serve {c : Call β} {p : ObjectName × Envelope β} (h : p ∈ (limits.serve c m).2) :
    p ∈ m ∨ c = .put p.1 p.2 ∧ takes p.1 = true := by
  cases c with
  | put n e =>
    have hserve : (limits.serve (.put n e) m).2 = (limits.put n e m).2 := rfl
    rw [hserve] at h
    rcases put_cases limits n e m with ⟨hstores, hput⟩ | ⟨-, -, hput⟩ | ⟨err, hput⟩ <;> rw [hput] at h
    · rcases Table.mem_put.mp h with rfl | ⟨hp, -⟩
      · exact Or.inr ⟨rfl, hstores.taken⟩
      · exact Or.inl hp
    · exact Or.inl h
    · exact Or.inl h
  | remove n =>
    simp only [serve] at h
    split_ifs at h
    · exact Or.inl (Table.mem_delete.mp h).1
    · exact Or.inl h
  | _ => exact Or.inl h

theorem serve_get {n : ObjectName} {e : Envelope β} (h : (limits.serve (.get n) m).1 = .ok e) : (n, e) ∈ m := by
  have hget : (limits.serve (.get n) m).1 =
      if takes n then (ObjectMap.serve (.get n) m).1 else .error (.transport false) := rfl
  rw [hget] at h
  split_ifs at h
  exact ObjectMap.serve_get.mp h

theorem serve_get_of_mem {n : ObjectName} {e : Envelope β} (hn : takes n = true) (h : (n, e) ∈ m) :
    limits.serve (.get n) m = (.ok e, m) := by
  simp only [serve]
  rw [if_pos hn, ObjectMap.serve_get.mpr h]

theorem serve_list_of_lists {v : JsString} {k : ObjectKind} (h : lists v k = true) :
    limits.serve (.list v k) m = (.ok (m.list v k), m) := by
  simp only [serve]
  rw [if_pos h]

theorem serve_list {v : JsString} {k : ObjectKind} {ns : List ObjectName} (h : (limits.serve (.list v k) m).1 = .ok ns) :
    ns = m.list v k := by
  have hlist : (limits.serve (.list v k) m).1 = if lists v k then .ok (m.list v k) else .error (.transport false) := rfl
  rw [hlist] at h
  split_ifs at h
  exact (Except.ok.inj h).symm

end ServerLimits

/-- The server as a destination; a call that fails in transport either reached it or did not. -/
def serverSite (D : Type) [DecidableEq β] (limits : ServerLimits β) : Site D β (ObjectMap β) where
  connect := fun _ m => m
  serve := fun _ c m => limits.serve c m
  mishap := fun _ c m m' => m' = m ∨ m' = (limits.serve c m).2
  holds := fun m => {p | p ∈ m}
  connect_holds := fun _ _ _ h => h
  serve_holds := fun _ _ _ _ h => (ServerLimits.mem_serve h).imp_right And.left
  mishap_holds := by
    rintro d c m m' (rfl | rfl) p hp
    · exact Or.inl hp
    · exact (ServerLimits.mem_serve hp).imp_right And.left
  list_holds := by
    intro d v k m ns h n hn
    rw [ServerLimits.serve_list h] at hn
    obtain ⟨he, hv, hk⟩ := ObjectMap.mem_list.mp hn
    exact ⟨hv, hk, he⟩
  get_holds := fun _ _ _ _ h => ServerLimits.serve_get h
  put_holds := by
    intro d n e m h
    rcases ServerLimits.put_cases limits n e m with ⟨-, hput⟩ | ⟨-, hmem, hput⟩ | ⟨err, hput⟩
    · show (n, e) ∈ (limits.put n e m).2
      rw [hput]
      exact Table.mem_put_self _ _
    · show (n, e) ∈ (limits.put n e m).2
      rw [hput]
      exact hmem
    · have herror : (limits.put n e m).1 = .ok () := h
      rw [hput] at herror
      cases herror

/-! ## What the server has stored -/

/-- The server has taken the name of everything it holds. -/
def Taken (m : ObjectMap β) : Prop := ∀ p ∈ m, takes p.1 = true

section Runs

variable [DecidableEq D] [DecidableEq β] {V : Vault D} {limits : ServerLimits β}

theorem Taken.serve {m : ObjectMap β} (h : Taken m) (c : Call β) : Taken (limits.serve c m).2 := by
  intro p hp
  rcases ServerLimits.mem_serve hp with hp | ⟨-, htaken⟩
  · exact h p hp
  · exact htaken

/-- The step lemma: a request. -/
theorem Taken.served {s s' : Store D β (ObjectMap β)} (h : Taken s.dest) {d : D} {q : Request β}
    {r : Except SyncError q.Reply} (hs : Served (serverSite D limits) d q s r s') : Taken s'.dest := by
  rcases hs with ⟨wall, coin, hs⟩ | hs
  · cases q with
    | call c =>
      obtain ⟨-, rfl⟩ := Prod.mk.inj hs
      exact h.serve c
    | query q =>
      obtain ⟨-, rfl⟩ := Prod.mk.inj hs
      exact h
  · cases hs with
    | failed c s dest retryable hmishap =>
      rcases hmishap with rfl | rfl
      · exact h
      · exact h.serve c

/-- The run lemma. -/
theorem taken_reach {c : Conf D (Request β) Request.Reply SyncError Unit (Store D β (ObjectMap β))}
    (h : (world V (serverSite D limits)).Reach (start Table.empty) c) : Taken c.store.dest := by
  induction h with
  | refl => exact fun p hp => absurd hp (Table.not_mem_empty p)
  | tail _ hstep ih =>
    cases hstep with
    | enter d h => exact ih
    | ask d q k r s h hs => exact ih.served hs
    | done d a h => exact ih
    | failed d e h => exact ih
    | env s h =>
      obtain ⟨d, L, op, -, rfl⟩ := Edit.edited h
      exact ih
    | crash d => exact ih

end Runs

end EasyDocket
