import EasyDocket.Server.Calls

/-!
# What holds between the requests of all callers

What each request leaves alone, what a caller may count on while others go on, when a request is asked, and that all of
this keeps the disk, the cache of usages and the map of objects consistent.
-/

namespace EasyDocket

namespace Server

theorem account_ext {a b : Account} (h : a.id = b.id) : a = b := by
  cases a
  cases b
  simp only at h
  subst h
  rfl

/-! ## Paths of an account -/

namespace FSStore

variable (s : FSStore)

def base : Path := segments s.root

/-- The directory of an account. -/
def home (a : Account) : Path := s.base ++ [a.id]

/-- The file of an object of an account. -/
def place (a : Account) (name : GoString) : Path := objectPath s.base a.id name

theorem root_eq : s.root = absolute s.base ∧ ∀ x ∈ s.base, Normal x := by
  obtain ⟨segs, hroot, hnormal⟩ := s.isRoot
  have hbase : s.base = segs := by
    unfold base
    rw [hroot, segments_absolute hnormal]
  rw [hbase]
  exact ⟨hroot, hnormal⟩

theorem path_home (a : Account) : s.path a.id [] = pure (s.home a) := by
  obtain ⟨hroot, hnormal⟩ := s.root_eq
  have hall : ∀ x ∈ s.base ++ [a.id], Normal x := by
    intro x hx
    rcases List.mem_append.mp hx with hx | hx
    · exact hnormal x hx
    · exact List.mem_singleton.mp hx ▸ normal_account a.valid
  unfold path
  have hempty : ∀ x ∈ splitSlash [], x = [] ∨ Normal x := fun x hx => Or.inl (List.mem_singleton.mp hx)
  rw [path_eq hroot hnormal a.valid hempty]
  show pure (segments (absolute (s.base ++ a.id :: segments []))) = _
  rw [show segments [] = [] from rfl, segments_absolute hall]
  rfl

theorem normal_name {name : GoString} (hn : validateName name = .ok ()) : ∀ x ∈ splitSlash name, Normal x := by
  obtain ⟨vault, file, hparts⟩ := validateName_ok hn
  rw [hparts.split]
  intro x hx
  simp only [List.mem_cons, List.not_mem_nil, or_false] at hx
  rcases hx with rfl | rfl | rfl | rfl
  · exact ⟨by decide +kernel, by decide +kernel, by decide +kernel, by decide +kernel⟩
  · exact hparts.normal_vault
  · exact ⟨by decide +kernel, by decide +kernel, by decide +kernel, by decide +kernel⟩
  · exact hparts.normal_file

theorem normal_place (a : Account) {name : GoString} (hn : validateName name = .ok ()) : ∀ x ∈ s.place a name, Normal x := by
  intro x hx
  rcases List.mem_append.mp hx with hx | hx
  · exact s.root_eq.2 x hx
  · rcases List.mem_cons.mp hx with rfl | hx
    · exact normal_account a.valid
    · exact normal_name hn x hx

/-- The path that the store computes for an object. -/
theorem path_object (a : Account) {name : GoString} (hn : validateName name = .ok ()) :
    Server.path s.root a.id name = .ok (absolute (s.place a name)) := by
  have hname : segments name = splitSlash name := filter_normal (normal_name hn)
  rw [path_eq s.root_eq.1 s.root_eq.2 a.valid (fun x hx => Or.inr (normal_name hn x hx)), hname]
  rfl

theorem path_place (a : Account) {name : GoString} (hn : validateName name = .ok ()) :
    s.path a.id name = pure (s.place a name) := by
  unfold path
  rw [s.path_object a hn]
  show pure (segments (absolute (s.place a name))) = _
  rw [segments_absolute (s.normal_place a hn)]

theorem home_prefix_place (a : Account) (name : GoString) : s.home a <+: s.place a name :=
  ⟨splitSlash name, by unfold home place objectPath; rw [List.append_assoc]; rfl⟩

theorem filed_place (a : Account) {name : GoString} (hn : validateName name = .ok ()) : Filed s.base (s.place a name) :=
  filed_objectPath a.valid hn

/-- Nothing is in the directories of two accounts. -/
theorem home_unique {a b : Account} {p : Path} (ha : s.home a <+: p) (hb : s.home b <+: p) : a = b := by
  obtain ⟨x, rfl⟩ := ha
  obtain ⟨y, hy⟩ := hb
  unfold home at hy
  rw [List.append_assoc, List.append_assoc] at hy
  exact account_ext (List.cons.inj (List.append_cancel_left hy)).1.symm

end FSStore

theorem place_split {s : FSStore} (a : Account) {name : GoString} (hn : validateName name = .ok ()) :
    ∃ rest, (s.place a name).dropLast = s.base ++ a.id :: rest ∧ rest.length = 3 := by
  obtain ⟨vault, file, hparts⟩ := validateName_ok hn
  refine ⟨[go "vaults", vault, go "ops"], ?_, rfl⟩
  unfold FSStore.place objectPath
  rw [hparts.split, show s.base ++ a.id :: [go "vaults", vault, go "ops", file] =
    (s.base ++ a.id :: [go "vaults", vault, go "ops"]) ++ [file] by simp, List.dropLast_concat]

/-! ## What a request leaves alone -/

/-- The files that a request may change. -/
def Touches (c : Choice) : FsRequest → Path → Prop
  | .createTemp dir, p => p = dir ++ [c.tempName]
  | .write tmp _, p => p = tmp
  | .rename tmp q, p => p = tmp ∨ p = q
  | .remove q, p => p = q
  | _, _ => False

/-- The usages that a request may change. -/
def TouchesUsage : FsRequest → GoString → Prop
  | .storeUsage account _, b => b = account
  | .deleteUsage account, b => b = account
  | _, _ => False

theorem fileAt_serve {c : Choice} {q : FsRequest} {m : Machine} {p : Path} (h : ¬ Touches c q p) :
    (serve c q m).2.disk.fileAt p = m.disk.fileAt p := by
  cases q with
  | mkdirAll dir =>
    simp only [serve]
    split_ifs <;> rfl
  | createTemp dir =>
    simp only [serve]
    split_ifs
    · rfl
    · rfl
    · rfl
    · exact Disk.fileAt_create.trans (if_neg h)
  | write tmp data =>
    simp only [serve]
    split_ifs
    · rfl
    · exact Disk.fileAt_create.trans (if_neg h)
    · exact Disk.fileAt_create.trans (if_neg h)
  | rename tmp dest =>
    obtain ⟨htmp, hdest⟩ := not_or.mp h
    simp only [serve]
    split_ifs
    · rfl
    · rfl
    · exact Disk.fileAt_create.trans ((if_neg hdest).trans (Disk.fileAt_delete.trans (if_neg htmp)))
  | remove dest =>
    simp only [serve]
    split_ifs
    · rfl
    · rfl
    · exact Disk.fileAt_delete.trans (if_neg h)
  | _ => rfl

theorem isDirAt_serve {c : Choice} {q : FsRequest} {m : Machine} {p : Path} (h : m.disk.isDirAt p = true) :
    (serve c q m).2.disk.isDirAt p = true := by
  cases q with
  | mkdirAll dir =>
    simp only [serve]
    split_ifs
    · exact Disk.isDirAt_makeDirs.mpr (Or.inl h)
    · exact h
    · exact Disk.isDirAt_makeDirs.mpr (Or.inl h)
  | createTemp dir =>
    simp only [serve]
    split_ifs <;> exact h
  | write tmp data =>
    simp only [serve]
    split_ifs <;> exact h
  | rename tmp dest =>
    simp only [serve]
    split_ifs <;> exact h
  | remove dest =>
    simp only [serve]
    split_ifs <;> exact h
  | _ => exact h

theorem usages_serve {c : Choice} {q : FsRequest} {m : Machine} {account : GoString} (h : ¬ TouchesUsage q account) :
    (serve c q m).2.usages account = m.usages account := by
  cases q with
  | storeUsage a total => exact Function.update_of_ne h _ _
  | deleteUsage a => exact Function.update_of_ne h _ _
  | mkdirAll dir =>
    simp only [serve]
    split_ifs <;> rfl
  | createTemp dir =>
    simp only [serve]
    split_ifs <;> rfl
  | write tmp data =>
    simp only [serve]
    split_ifs <;> rfl
  | rename tmp dest =>
    simp only [serve]
    split_ifs <;> rfl
  | remove dest =>
    simp only [serve]
    split_ifs <;> rfl
  | _ => rfl

/-! ## The history variables -/

def Op.account : Op → Account
  | .put a _ _ => a
  | .get a _ => a
  | .delete a _ => a
  | .follow a _ _ _ => a
  | .fetch a _ _ => a

section World

variable (s : FSStore) {d d' : Party} {c : Choice} {q : FsRequest} {w w' : World}

theorem foldl_note (l : List Note) (spec : Atomic.State Party Note Answer Outcome Held) :
    l.foldl Atomic.State.note spec = { spec with events := spec.events ++ l.map CallEvent.noted } := by
  induction l generalizing spec with
  | nil => simp
  | cons n l ih =>
    rw [List.foldl_cons, ih]
    simp [Atomic.State.note]

/-- Whether a request decides the operation of its caller. -/
def Deciding (d : Party) (c : Choice) (q : FsRequest) (w : World) : Prop :=
  decides s.quota w.spec.object d.1 q (serve c q w.machine).1 = true

instance : Decidable (Deciding s d c q w) := inferInstanceAs (Decidable (_ = true))

theorem events_after : (w.after s d c q).spec.events = w.spec.events ++ (notes d c q w.machine).map CallEvent.noted := by
  show (specAfter s d c q w).events = _
  unfold specAfter
  simp only [foldl_note]
  split_ifs <;> rfl

theorem specAfter_deciding (h : Deciding s d c q w) : specAfter s d c q w =
    Atomic.State.act ({ w.spec with events := w.spec.events ++ (notes d c q w.machine).map CallEvent.noted }) d
      (objects s.quota) := by
  unfold Deciding at h
  unfold specAfter
  simp only [foldl_note]
  rw [if_pos h]

theorem specAfter_not_deciding (h : ¬ Deciding s d c q w) : specAfter s d c q w =
    { w.spec with events := w.spec.events ++ (notes d c q w.machine).map CallEvent.noted } := by
  unfold Deciding at h
  unfold specAfter
  simp only [foldl_note]
  rw [if_neg h]

theorem object_after_deciding (h : Deciding s d c q w) :
    (w.after s d c q).spec.object = (d.1.apply s.quota w.spec.object).2 :=
  congrArg Atomic.State.object (specAfter_deciding s h)

theorem calls_after_deciding (h : Deciding s d c q w) :
    (w.after s d c q).spec.calls = Function.update w.spec.calls d (some (some (d.1.apply s.quota w.spec.object).1)) :=
  congrArg Atomic.State.calls (specAfter_deciding s h)

theorem object_after (h : ¬ Deciding s d c q w) : (w.after s d c q).spec.object = w.spec.object := by
  show (specAfter s d c q w).object = _
  rw [specAfter_not_deciding s h]

theorem calls_after (h : ¬ Deciding s d c q w) : (w.after s d c q).spec.calls = w.spec.calls := by
  show (specAfter s d c q w).calls = _
  rw [specAfter_not_deciding s h]

theorem calls_after_other (h : d' ≠ d) : (w.after s d c q).spec.calls d' = w.spec.calls d' := by
  by_cases hq : Deciding s d c q w
  · rw [calls_after_deciding s hq, Function.update_of_ne h]
  · rw [calls_after s hq]

theorem struck_after (h : c.strikes q w.machine = true) : struck (w.after s d c q).spec.events := by
  unfold struck
  rw [events_after]
  refine List.mem_append_right _ (List.mem_map_of_mem (List.mem_append_left _ ?_))
  rw [if_pos h]
  exact List.mem_singleton_self _

/-! ## What the others do -/

/-- What a caller may count on while others go on; in the directory of an account whose lock it holds nothing happens. -/
structure Undisturbed (d : Party) (w w' : World) : Prop where
  calls : w'.spec.calls d = w.spec.calls d
  events : w.spec.events <+: w'.spec.events
  dirs : ∀ p, w.machine.disk.isDirAt p = true → w'.machine.disk.isDirAt p = true
  steady : ∀ p, w'.steady d p = true → w.steady d p = true
  holder : ∀ a : Account, w.holder a.id = some d → w'.holder a.id = some d
  usage : ∀ a : Account, w.holder a.id = some d → w'.machine.usages a.id = w.machine.usages a.id
  contents : ∀ a : Account, w.holder a.id = some d → ∀ name, w'.spec.object.content a.id name = w.spec.object.content a.id name
  files : ∀ a : Account, w.holder a.id = some d → ∀ p, s.home a <+: p →
    w'.machine.disk.fileAt p = w.machine.disk.fileAt p

theorem Undisturbed.refl (d : Party) (w : World) : Undisturbed s d w w :=
  ⟨rfl, List.prefix_refl _, fun _ h => h, fun _ h => h, fun _ h => h, fun _ _ => rfl, fun _ _ _ => rfl, fun _ _ _ _ => rfl⟩

variable {s}

theorem Undisturbed.trans {w'' : World} (h : Undisturbed s d w w') (h' : Undisturbed s d w' w'') : Undisturbed s d w w'' where
  calls := h'.calls.trans h.calls
  events := h.events.trans h'.events
  dirs := fun p hp => h'.dirs p (h.dirs p hp)
  steady := fun p hp => h.steady p (h'.steady p hp)
  holder := fun a ha => h'.holder a (h.holder a ha)
  usage := fun a ha => (h'.usage a (h.holder a ha)).trans (h.usage a ha)
  contents := fun a ha name => (h'.contents a (h.holder a ha) name).trans (h.contents a ha name)
  files := fun a ha p hp => (h'.files a (h.holder a ha) p hp).trans (h.files a ha p hp)

theorem Undisturbed.struck (h : Undisturbed s d w w') (hw : Server.struck w.spec.events) : Server.struck w'.spec.events :=
  h.events.subset hw

variable (s)

/-- A request of its own that decides nothing, and touches neither files nor usages nor locks. -/
theorem undisturbed_quiet (hq : ¬ Deciding s d c q w) (hfiles : ∀ p, ¬ Touches c q p) (husage : ∀ b, ¬ TouchesUsage q b)
    (hholder : holderAfter d q w.holder = w.holder) : Undisturbed s d w (w.after s d c q) where
  calls := by rw [calls_after s hq]
  events := by
    rw [events_after]
    exact List.prefix_append _ _
  dirs := fun p hp => isDirAt_serve hp
  steady := fun p hp => (Bool.and_eq_true_iff.mp hp).1
  holder := fun a ha => by
    show holderAfter d q w.holder a.id = _
    rw [hholder, ha]
  usage := fun a _ => usages_serve (husage a.id)
  contents := fun a _ name => by rw [object_after s hq]
  files := fun a _ p _ => fileAt_serve (hfiles p)

/-! ## When a request is asked -/

def Owns (d : Party) (w : World) : Prop := w.holder d.1.account.id = some d

/-- A temporary file of a caller's account. -/
structure OwnTemp (d : Party) (p : Path) : Prop where
  home : s.home d.1.account <+: p
  temp : IsTemp (p.getLastD [])
  filed : Filed s.base p

/-- The call has not acted yet. -/
def Undecided (d : Party) (w : World) : Prop := w.spec.calls d = some none

/-- The bytes of the caller's account. -/
def World.total (w : World) (d : Party) : ℕ := w.spec.object.total d.1.account.id

/-- The bytes that the map has for the caller's name. -/
def World.content (w : World) (d : Party) : Option GoString := w.spec.object.content d.1.account.id d.1.name

/-- What the cache says of an account is right; after a failure it may be too much. -/
def CacheRight (w : World) (a : Account) : Prop :=
  ∀ used, w.machine.usages a.id = some used → w.spec.object.total a.id ≤ used ∧
    (¬ struck w.spec.events → used = w.spec.object.total a.id)

/-- Without a failure no temporary file is left over. -/
def Clean (w : World) (a : Account) : Prop :=
  ¬ struck w.spec.events → ∀ p, s.home a <+: p → IsTemp (p.getLastD []) → w.machine.disk.fileAt p = none

/-- The object of a call may be written. -/
structure MayStore (d : Party) (data : GoString) (w : World) : Prop where
  op : d.1 = .put d.1.account d.1.name data
  valid : validateName d.1.name = .ok ()
  undecided : Undecided d w
  absent : w.content d = none
  fits : ¬ (0 < s.quota ∧ s.quota < (w.total d + data.length : ℕ))

/-- When a request is asked. -/
def Asks (d : Party) : FsRequest → World → Prop
  | .readFile p, w => validateName d.1.name = .ok () ∧ p = s.place d.1.account d.1.name ∧ Undecided d w
  | .unlock account, w => account = d.1.account.id ∧ Owns d w ∧ CacheRight w d.1.account ∧ Clean s w d.1.account
  | .loadUsage account, w => account = d.1.account.id ∧ Owns d w ∧ CacheRight w d.1.account ∧ w.content d = none ∧ Undecided d w
  | .storeUsage account total, w => account = d.1.account.id ∧ Owns d w ∧ w.content d = none ∧ Undecided d w ∧
    w.total d ≤ total ∧ (¬ struck w.spec.events → total = w.total d)
  | .deleteUsage account, w => account = d.1.account.id ∧ Owns d w
  | .mkdirAll p, _ => p.length ≤ s.base.length + 4
  | .createTemp dir, w => Owns d w ∧ ∃ rest, dir = s.base ++ d.1.account.id :: rest ∧ rest.length = 3
  | .write tmp _, w => Owns d w ∧ OwnTemp s d tmp
  | .rename tmp p, w => Owns d w ∧ OwnTemp s d tmp ∧ p = s.place d.1.account d.1.name ∧
    ∃ data, w.machine.disk.fileAt tmp = some data ∧ MayStore s d data w
  | .remove p, w => Owns d w ∧ ((OwnTemp s d p ∧ ∀ a name, d.1 ≠ .delete a name) ∨
    (d.1 = .delete d.1.account d.1.name ∧ validateName d.1.name = .ok () ∧ p = s.place d.1.account d.1.name ∧ Undecided d w))
  | _, _ => True

/-! ## What is kept -/

/-- What holds between the requests of all callers. -/
structure Consistent (w : World) : Prop where
  tidy : Tidy s.base w.machine.disk
  object : w.spec.object = heldOn s.base w.machine.disk
  quota : 0 < s.quota → ∀ a : Account, (w.spec.object.total a.id : ℤ) ≤ s.quota
  cache : ∀ a : Account, w.holder a.id = none → CacheRight w a
  clean : ∀ a : Account, w.holder a.id = none → Clean s w a
  steady : ∀ d p, w.steady d p = true → (w.machine.disk.fileAt p).isSome = true

variable {s}

theorem asks_touches {p : Path} (hq : Asks s d q w) (h : Touches c q p) : Owns d w ∧ s.home d.1.account <+: p := by
  cases q with
  | createTemp dir =>
    obtain ⟨howns, rest, rfl, -⟩ := hq
    refine ⟨howns, rest ++ [c.tempName], ?_⟩
    rw [show p = _ from h]
    unfold FSStore.home
    simp
  | write tmp data => exact ⟨hq.1, (show p = tmp from h) ▸ hq.2.home⟩
  | rename tmp dest =>
    refine ⟨hq.1, ?_⟩
    rcases h with rfl | rfl
    · exact hq.2.1.home
    · rw [hq.2.2.1]
      exact s.home_prefix_place _ _
  | remove dest =>
    refine ⟨hq.1, ?_⟩
    rw [show p = dest from h]
    rcases hq.2 with htemp | ⟨-, -, rfl, -⟩
    · exact htemp.1.home
    · exact s.home_prefix_place _ _
  | _ => exact absurd h (fun h => h)

theorem asks_touchesUsage {b : GoString} (hq : Asks s d q w) (h : TouchesUsage q b) : Owns d w ∧ b = d.1.account.id := by
  cases q with
  | storeUsage account total => exact ⟨hq.2.1, (show b = account from h).trans hq.1⟩
  | deleteUsage account => exact ⟨hq.2, (show b = account from h).trans hq.1⟩
  | _ => exact absurd h (fun h => h)

theorem asks_proper (hq : Asks s d q w) : Proper s.base q := by
  cases q with
  | mkdirAll p => exact hq
  | createTemp dir => exact ⟨d.1.account.id, hq.2.choose, d.1.account.valid, hq.2.choose_spec⟩
  | rename tmp p =>
    obtain ⟨-, -, rfl, data, -, hmay⟩ := hq
    exact s.filed_place _ hmay.valid
  | _ => trivial

/-- A lock that is held stays with its holder while another caller asks. -/
theorem holder_after_other (hd : d' ≠ d) (hq : Asks s d q w) (hlock : ∀ account, q = .lock account → w.holder account = none)
    {a : Account} (ha : w.holder a.id = some d') : holderAfter d q w.holder a.id = some d' := by
  cases q with
  | lock account =>
    have hne : a.id ≠ account := by
      rintro rfl
      rw [hlock _ rfl] at ha
      cases ha
    exact (Function.update_of_ne hne _ _).trans ha
  | unlock account =>
    have hne : a.id ≠ account := by
      rintro rfl
      have howns : w.holder a.id = some d := hq.1 ▸ hq.2.1
      rw [howns] at ha
      exact hd (Option.some.inj ha).symm
    exact (Function.update_of_ne hne _ _).trans ha
  | _ => exact ha

/-- What a put comes to where its name is taken or the quota is reached. -/
theorem apply_put_taken {quota : ℤ} {a : Account} {name data existing : GoString} {held : Held}
    (h : held.content a.id name = some existing) :
    (Op.put a name data).apply quota held = (if existing = data then .stored else .conflict, held) := by
  simp only [Op.apply, h]

theorem apply_put_refused {quota : ℤ} {a : Account} {name data : GoString} {held : Held}
    (h : held.content a.id name = none) (hfull : 0 < quota ∧ quota < (held.total a.id + data.length : ℕ)) :
    (Op.put a name data).apply quota held = (.refused, held) := by
  simp only [Op.apply, h]
  rw [if_pos hfull]

theorem apply_put_stored {quota : ℤ} {a : Account} {name data : GoString} {held : Held}
    (h : held.content a.id name = none) (hfits : ¬ (0 < quota ∧ quota < (held.total a.id + data.length : ℕ))) :
    (Op.put a name data).apply quota held = (.stored, held.put ⟨a.id, name, data⟩) := by
  simp only [Op.apply, h]
  rw [if_neg hfits]

/-- Only a put looks at a usage. -/
theorem decides_usage {op : Op} {held : Held} {quota : ℤ} {account : GoString} {reply : Option ℕ}
    (h : decides quota held op (.loadUsage account) reply = true) :
    ∃ a name data, op = .put a name data ∧ (0 < quota ∧ quota < (held.total a.id + data.length : ℕ)) := by
  cases op with
  | put a name data =>
    cases reply with
    | none => cases h
    | some used => exact ⟨a, name, data, rfl, of_decide_eq_true h⟩
  | _ => cases h

theorem decides_storeUsage {op : Op} {held : Held} {quota : ℤ} {account : GoString} {total : ℕ} {reply : Unit}
    (h : decides quota held op (.storeUsage account total) reply = true) :
    ∃ a name data, op = .put a name data ∧ (0 < quota ∧ quota < (held.total a.id + data.length : ℕ)) := by
  cases op with
  | put a name data => exact ⟨a, name, data, rfl, of_decide_eq_true h⟩
  | _ => cases h

theorem content_place (hw : Consistent s w) (hn : validateName d.1.name = .ok ()) :
    w.content d = w.machine.disk.fileAt (s.place d.1.account d.1.name) := by
  unfold World.content
  rw [hw.object]
  exact content_heldOn hw.tidy d.1.account.valid hn

/-- A call that is decided by what it reads leaves the map as it is. -/
theorem apply_readFile {p : Path} (hw : Consistent s w) (hq : Asks s d (.readFile p) w)
    (h : Deciding s d c (.readFile p) w) : (d.1.apply s.quota w.spec.object).2 = w.spec.object := by
  obtain ⟨hn, rfl, -⟩ := hq
  have hcontent := content_place hw hn
  obtain ⟨op, n⟩ := d
  unfold Deciding at h
  cases op with
  | put a name data =>
    cases hr : (serve c (.readFile (s.place a name)) w.machine).1 with
    | ok existing =>
      have htaken : w.spec.object.content a.id name = some existing := hcontent.trans (readFile_ok hr).2
      rw [apply_put_taken htaken]
    | error e =>
      rw [show (serve c (.readFile (s.place (Op.put a name data, n).1.account (Op.put a name data, n).1.name)) w.machine).1 = _ from hr] at h
      cases h
  | get a name =>
    simp only [Op.apply]
    split <;> rfl
  | _ => cases h

theorem deciding_of_ok {tmp p : Path} {data : GoString} {a : Account} {name : GoString}
    (hr : (serve c (.rename tmp p) w.machine).1 = .ok ()) (hop : d.1 = .put a name data) : Deciding s d c (.rename tmp p) w := by
  unfold Deciding
  rw [hop, hr]
  rfl

theorem not_deciding_of_error {tmp p : Path} {data : GoString} {a : Account} {name : GoString} {e : FsError}
    (hr : (serve c (.rename tmp p) w.machine).1 = .error e) (hop : d.1 = .put a name data) :
    ¬ Deciding s d c (.rename tmp p) w := by
  unfold Deciding
  rw [hop, hr]
  exact Bool.false_ne_true

theorem deciding_of_removed {p : Path} {a : Account} {name : GoString}
    (hr : (serve c (.remove p) w.machine).1 = .ok ()) (hop : d.1 = .delete a name) : Deciding s d c (.remove p) w := by
  unfold Deciding
  rw [hop, hr]
  rfl

/-- Only a deletion is decided by a removal. -/
theorem decides_remove {op : Op} {held : Held} {quota : ℤ} {p : Path} {reply : Except FsError Unit}
    (h : decides quota held op (.remove p) reply = true) :
    ∃ a name, op = .delete a name ∧ (reply = .ok () ∨ reply = .error .notExist) := by
  cases op with
  | delete a name =>
    rcases reply with (_ | _) | _
    · exact ⟨a, name, rfl, Or.inr rfl⟩
    · cases h
    · exact ⟨a, name, rfl, Or.inl rfl⟩
  | _ => cases h

/-- The step lemma of the map. -/
theorem object_step (hw : Consistent s w) (hq : Asks s d q w) :
    (w.after s d c q).spec.object = heldOn s.base (serve c q w.machine).2.disk := by
  have htidy : Tidy s.base (serve c q w.machine).2.disk := tidy_serve hw.tidy (asks_proper hq)
  -- requests that decide nothing and do not touch the files of objects
  have hquiet : ¬ Deciding s d c q w → (∀ p, Touches c q p → IsTemp (p.getLastD [])) →
      (w.after s d c q).spec.object = heldOn s.base (serve c q w.machine).2.disk := by
    intro hnot htemp
    rw [object_after s hnot, hw.object]
    refine (heldOn_congr hw.tidy htidy (fun a n _ hn => fileAt_serve (fun ht => ?_))).symm
    exact objectPath_ne_temp hn (htemp _ ht) rfl
  by_cases hdec : Deciding s d c q w
  · rw [object_after_deciding s hdec]
    cases q with
    | readFile p =>
      rw [apply_readFile hw hq hdec]
      exact hw.object
    | loadUsage account =>
      obtain ⟨-, -, -, habsent, -⟩ := hq
      obtain ⟨a, name, data, hop, hfull⟩ := decides_usage hdec
      unfold World.content at habsent
      rw [hop] at habsent ⊢
      have habsent : w.spec.object.content a.id name = none := habsent
      rw [apply_put_refused habsent hfull]
      exact hw.object
    | storeUsage account total =>
      obtain ⟨-, -, habsent, -⟩ := hq
      obtain ⟨a, name, data, hop, hfull⟩ := decides_storeUsage hdec
      unfold World.content at habsent
      rw [hop] at habsent ⊢
      have habsent : w.spec.object.content a.id name = none := habsent
      rw [apply_put_refused habsent hfull]
      exact hw.object
    | rename tmp p =>
      obtain ⟨-, htemp, rfl, data, htmp, hmay⟩ := hq
      cases hr : (serve c (.rename tmp (s.place d.1.account d.1.name)) w.machine).1 with
      | error e => exact absurd hdec (not_deciding_of_error hr hmay.op)
      | ok u =>
        obtain ⟨content, hcontent, hdir, hserve⟩ := rename_ok hr
        cases htmp.symm.trans hcontent
        have habsent : w.spec.object.content d.1.account.id d.1.name = none := hmay.absent
        rw [hserve]
        show _ = heldOn s.base ((w.machine.disk.delete tmp).create (s.place d.1.account d.1.name) data)
        rw [FSStore.place, heldOn_create (hw.tidy.delete tmp) d.1.account.valid hmay.valid hdir,
          heldOn_delete_temp hw.tidy htemp.temp, ← hw.object]
        refine Eq.trans ?_ (congrArg Prod.snd (apply_put_stored habsent hmay.fits))
        rw [← hmay.op]
    | remove p =>
      obtain ⟨a, name, hop, hreply⟩ := decides_remove hdec
      rcases hq.2 with htemp | ⟨-, hn, rfl, -⟩
      · exact absurd hop (htemp.2 a name)
      · have hplace : s.place d.1.account d.1.name = objectPath s.base a.id name := by rw [hop]; rfl
        have happly : (d.1.apply s.quota w.spec.object).2 = w.spec.object.delete a.id name := by rw [hop]; rfl
        rw [happly]
        rcases hreply with hr | hr
        · rw [remove_ok hr]
          show _ = heldOn s.base (w.machine.disk.delete _)
          rw [hplace, heldOn_delete hw.tidy, hw.object]
        · have hcontent := content_place hw hn
          rw [remove_notExist hr] at hcontent
          unfold World.content at hcontent
          rw [hop] at hcontent
          have habsent : w.spec.object.content a.id name = none := hcontent
          rw [remove_error hr, Held.delete_absent habsent, hw.object]
    | _ =>
      obtain ⟨op, n⟩ := d
      cases op <;> cases hdec
  · cases q with
    | rename tmp p =>
      obtain ⟨-, -, rfl, data, -, hmay⟩ := hq
      cases hr : (serve c (.rename tmp (s.place d.1.account d.1.name)) w.machine).1 with
      | error e =>
        rw [object_after s hdec, rename_error hr]
        exact hw.object
      | ok u => exact absurd (deciding_of_ok hr hmay.op) hdec
    | remove p =>
      rw [object_after s hdec]
      cases hr : (serve c (.remove p) w.machine).1 with
      | error e =>
        rw [remove_error hr]
        exact hw.object
      | ok u =>
        rw [remove_ok hr]
        rcases hq.2 with htemp | ⟨hop, -⟩
        · exact hw.object.trans (heldOn_delete_temp hw.tidy htemp.1.temp).symm
        · exact absurd (deciding_of_removed hr hop) hdec
    | createTemp dir =>
      refine hquiet hdec (fun p hp => ?_)
      rw [show p = _ from hp, List.getLastD_concat]
      exact List.prefix_append _ _
    | write tmp data => exact hquiet hdec (fun p hp => (show p = tmp from hp) ▸ hq.2.temp)
    | _ => exact hquiet hdec (fun p hp => hp.elim)

/-- A request of one caller does not disturb another. -/
theorem undisturbed_other (hw : Consistent s w) (hd : d' ≠ d) (hq : Asks s d q w) (hlock : ∀ account, q = .lock account → w.holder account = none) :
    Undisturbed s d' w (w.after s d c q) := by
  have hfiles : ∀ a : Account, w.holder a.id = some d' → ∀ p, s.home a <+: p →
      (serve c q w.machine).2.disk.fileAt p = w.machine.disk.fileAt p := by
    intro a ha p hp
    refine fileAt_serve (fun h => ?_)
    obtain ⟨howns, hown⟩ := asks_touches hq h
    rw [s.home_unique hp hown] at ha
    exact hd (Option.some.inj (ha.symm.trans howns))
  refine ⟨calls_after_other s hd, ?_, fun p hp => isDirAt_serve hp, fun p hp => (Bool.and_eq_true_iff.mp hp).1,
    fun a ha => holder_after_other hd hq hlock ha, fun a ha => ?_, fun a ha => ?_, hfiles⟩
  · rw [events_after]
    exact List.prefix_append _ _
  · refine usages_serve (fun h => ?_)
    obtain ⟨howns, hb⟩ := asks_touchesUsage hq h
    rw [hb] at ha
    exact hd (Option.some.inj (ha.symm.trans howns))
  · rw [object_step hw hq, hw.object]
    exact content_congr hw.tidy (tidy_serve hw.tidy (asks_proper hq)) (hfiles a ha)

/-- No operation takes an account over the quota. -/
theorem total_apply_le {quota : ℤ} {held : Held} (op : Op) (hpos : 0 < quota)
    (h : ∀ a : Account, (held.total a.id : ℤ) ≤ quota) (a : Account) : ((op.apply quota held).2.total a.id : ℤ) ≤ quota := by
  cases op with
  | put b name data =>
    cases hc : held.content b.id name with
    | some existing =>
      rw [apply_put_taken hc]
      exact h a
    | none =>
      by_cases hfull : 0 < quota ∧ quota < (held.total b.id + data.length : ℕ)
      · rw [apply_put_refused hc hfull]
        exact h a
      · rw [apply_put_stored hc hfull]
        show ((held.put ⟨b.id, name, data⟩).total a.id : ℤ) ≤ quota
        rw [Held.total_put hc]
        split_ifs with hab
        · have hfits : ((held.total b.id + data.length : ℕ) : ℤ) ≤ quota := not_lt.mp (fun hlt => hfull ⟨hpos, hlt⟩)
          rw [← show b.id = a.id from hab]
          exact hfits
        · exact h a
  | get b name =>
    simp only [Op.apply]
    split <;> exact h a
  | delete b name => exact le_trans (Int.ofNat_le.mpr (Held.total_delete_le b.id name)) (h a)
  | _ => exact h a

theorem total_after (hw : Consistent s w) (hq : Asks s d q w) {a : Account} (hfiles : ∀ p, s.home a <+: p → ¬ Touches c q p) :
    (w.after s d c q).spec.object.total a.id = w.spec.object.total a.id := by
  rw [object_step hw hq, hw.object]
  exact Held.total_congr (content_congr hw.tidy (tidy_serve hw.tidy (asks_proper hq)) (fun p hp => fileAt_serve (hfiles p hp)))

theorem cacheRight_after (hw : Consistent s w) (hq : Asks s d q w) {a : Account} (h : CacheRight w a)
    (hfiles : ∀ p, s.home a <+: p → ¬ Touches c q p) (husage : ¬ TouchesUsage q a.id) : CacheRight (w.after s d c q) a := by
  intro used hused
  rw [show (w.after s d c q).machine.usages a.id = w.machine.usages a.id from usages_serve husage] at hused
  rw [total_after hw hq hfiles]
  refine ⟨(h used hused).1, fun hstruck => (h used hused).2 (fun hs => hstruck ?_)⟩
  unfold struck
  rw [events_after]
  exact List.mem_append_left _ hs

theorem clean_after {a : Account} (h : Clean s w a) (hfiles : ∀ p, s.home a <+: p → ¬ Touches c q p) :
    Clean s (w.after s d c q) a := by
  intro hstruck p hp htemp
  rw [show (w.after s d c q).machine.disk.fileAt p = w.machine.disk.fileAt p from fileAt_serve (hfiles p hp)]
  refine h (fun hs => hstruck ?_) p hp htemp
  unfold struck
  rw [events_after]
  exact List.mem_append_left _ hs

/-- An account whose lock is free after a request: it was free, or the caller has just let it go. -/
theorem free_after {account : GoString} (h : holderAfter d q w.holder account = none) :
    q = .unlock account ∨ w.holder account = none := by
  cases q with
  | lock b =>
    by_cases hb : account = b
    · rw [hb] at h
      have h : Function.update w.holder b (some d) b = none := h
      rw [Function.update_self] at h
      cases h
    · exact Or.inr ((Function.update_of_ne hb _ _).symm.trans h)
  | unlock b =>
    by_cases hb : account = b
    · exact Or.inl (by rw [hb])
    · exact Or.inr ((Function.update_of_ne hb _ _).symm.trans h)
  | _ => exact Or.inr h

/-- The step lemma of `Consistent`. -/
theorem consistent_after (hw : Consistent s w) (hq : Asks s d q w) : Consistent s (w.after s d c q) := by
  -- an account that the caller does not own is left alone
  have hfree : ∀ a : Account, w.holder a.id = none →
      (∀ p, s.home a <+: p → ¬ Touches c q p) ∧ ¬ TouchesUsage q a.id := by
    intro a ha
    refine ⟨fun p hp ht => ?_, fun ht => ?_⟩
    · obtain ⟨howns, hown⟩ := asks_touches hq ht
      rw [s.home_unique hp hown] at ha
      exact Option.some_ne_none d (howns.symm.trans ha)
    · obtain ⟨howns, hb⟩ := asks_touchesUsage hq ht
      rw [hb] at ha
      exact Option.some_ne_none d (howns.symm.trans ha)
  refine ⟨tidy_serve hw.tidy (asks_proper hq), object_step hw hq, fun hpos a => ?_, fun a ha => ?_, fun a ha => ?_,
    fun e p hp => (Bool.and_eq_true_iff.mp hp).2⟩
  · by_cases hdec : Deciding s d c q w
    · rw [object_after_deciding s hdec]
      exact total_apply_le d.1 hpos (hw.quota hpos) a
    · rw [object_after s hdec]
      exact hw.quota hpos a
  · rcases free_after ha with rfl | hnone
    · have hright : CacheRight w a := (account_ext hq.1 : a = d.1.account) ▸ hq.2.2.1
      exact cacheRight_after hw hq hright (fun _ _ h => h) (fun h => h)
    · exact cacheRight_after hw hq (hw.cache a hnone) (hfree a hnone).1 (hfree a hnone).2
  · rcases free_after ha with rfl | hnone
    · have hclean : Clean s w a := (account_ext hq.1 : a = d.1.account) ▸ hq.2.2.2
      exact clean_after hclean (fun _ _ h => h)
    · exact clean_after (hw.clean a hnone) (hfree a hnone).1

end World

end Server

end EasyDocket
