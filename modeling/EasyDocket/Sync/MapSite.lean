import EasyDocket.Sync.World
import EasyDocket.Lib.Table

/-!
# A destination that is a map

The plainest destination: object names to bytes, with list, get, put and remove.  A call that fails in transport either
took effect or did not.
-/

namespace EasyDocket

variable {D β : Type}

/-- A map of object names to envelopes, in name order. -/
abbrev ObjectMap (β : Type) := Table (fun p : ObjectName × Envelope β => p.1)

namespace ObjectMap

/-- The names under a prefix, in ascending order. -/
def list (m : ObjectMap β) (vault : JsString) (kind : ObjectKind) : List ObjectName :=
  (m.rows.map Prod.fst).filter (fun n => n.vault = vault ∧ n.kind = kind)

/-- Serve a call. -/
def serve : (c : Call β) → ObjectMap β → Except SyncError c.Reply × ObjectMap β
  | .list vault kind, m => (.ok (m.list vault kind), m)
  | .get name, m =>
    (match m.get? name with
      | some p => .ok p.2
      | none => .error (.transport false), m)
  | .put name bytes, m => (.ok (), m.put (name, bytes))
  | .remove name, m => (.ok (), m.delete name)
  | .flush, m => (.ok (), m)

theorem mem_list {m : ObjectMap β} {v : JsString} {k : ObjectKind} {n : ObjectName} :
    n ∈ m.list v k ↔ (∃ e, (n, e) ∈ m) ∧ n.vault = v ∧ n.kind = k := by
  simp [list, Table.mem_def]

theorem serve_get {m : ObjectMap β} {n : ObjectName} {e : Envelope β} :
    (serve (.get n) m).1 = .ok e ↔ (n, e) ∈ m := by
  have hget : (serve (.get n) m).1 = match m.get? n with
      | some p => .ok p.2
      | none => .error (.transport false) := rfl
  rw [hget]
  cases h : m.get? n with
  | none =>
    constructor
    · intro he
      cases he
    · intro he
      exact absurd rfl (Table.get?_eq_none.mp h (n, e) he)
  | some p =>
    obtain ⟨hp, hk⟩ := Table.get?_eq_some.mp h
    obtain ⟨n', e'⟩ := p
    simp only at hk
    subst hk
    constructor
    · intro he
      cases he
      exact hp
    · intro he
      have := Table.eq_of_key_eq hp he rfl
      cases this
      rfl

theorem mem_serve {c : Call β} {m : ObjectMap β} {p : ObjectName × Envelope β} (h : p ∈ (serve c m).2) :
    p ∈ m ∨ c = .put p.1 p.2 := by
  cases c with
  | put n e =>
    rcases Table.mem_put.mp h with rfl | ⟨hp, -⟩
    · exact Or.inr rfl
    · exact Or.inl hp
  | remove n => exact Or.inl (Table.mem_delete.mp h).1
  | _ => exact Or.inl h

end ObjectMap

/-- The map as a destination. -/
def mapSite (D β : Type) : Site D β (ObjectMap β) where
  connect := fun _ m => m
  serve := fun _ c m => ObjectMap.serve c m
  mishap := fun _ c m m' => m' = m ∨ m' = (ObjectMap.serve c m).2
  holds := fun m => {p | p ∈ m}
  connect_holds := fun _ _ _ h => h
  serve_holds := fun _ _ _ _ h => ObjectMap.mem_serve h
  mishap_holds := by
    rintro d c m m' (rfl | rfl) p hp
    · exact Or.inl hp
    · exact ObjectMap.mem_serve hp
  list_holds := by
    intro d v k m ns h n hn
    cases h
    obtain ⟨he, hv, hk⟩ := ObjectMap.mem_list.mp hn
    exact ⟨hv, hk, he⟩
  get_holds := fun _ _ _ _ h => ObjectMap.serve_get.mp h
  put_holds := fun _ _ _ _ _ => Table.mem_put_self _ _

theorem mapSite_empty : (mapSite D β).holds (Table.empty : ObjectMap β) = ∅ :=
  Set.eq_empty_of_forall_notMem (fun p hp => Table.not_mem_empty p hp)

end EasyDocket
