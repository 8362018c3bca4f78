import EasyDocket.Server.Storing
import EasyDocket.Server.Listing
import EasyDocket.Server.Script

/-!
# The store refines the map

Every run of the callers is a run of the map with a quota that they call, with the same calls and returns in the same
order.  Listings do not act on the map; what they return is beside it.
-/

namespace EasyDocket

namespace Server

open FSStore (Object)

variable {s : FSStore} {opts : Options} {d d' : Party} {w w' : World} {r : Outcome}

/-! ## Listings among the other calls -/

def Op.pre : Op → GoString
  | .follow _ pre _ _ => pre
  | .fetch _ pre _ => pre
  | _ => []

variable (s)

/-- A walk of a call may be stopped by a failure, by the caller, or by a file that was gone. -/
def Stopped (d : Party) (e : WalkError) (w : World) : Prop := e = .fs .notExist → .noted (.vanished d) ∈ w.spec.events

/-- A listing that is returned has every file that was there since it was called, if no file was gone. -/
def Complete (d : Party) (r : Outcome) (w : World) : Prop :=
  ∀ objects, r = .ok (.listed objects) →
    Gathered s d.1.account (fun _ _ => True) d.1.pre (fun p => w.steady d p = true) (fun _ => True) objects ∨ .noted (.vanished d) ∈ w.spec.events

/-- What a call is ready to return. -/
def Ready (d : Party) (r : Outcome) (w : World) : Prop := Settled s d r w ∧ Complete s d r w

variable {s}

theorem stable_ready : (callProtocol s opts d).Stable (Ready s d r) := fun _ _ h hu =>
  ⟨h.1.undisturbed hu.1, fun objects hr => (h.2 objects hr).imp (fun hG => hG.mono hu.1.steady) (fun he => hu.1.events.subset he)⟩

theorem vanished_after {c : Choice} {p : Path} (h : w.machine.disk.fileAt p = none) :
    .noted (.vanished d) ∈ (w.after s d c (.info p)).spec.events := by
  rw [events_after]
  refine List.mem_append_right _ (List.mem_map_of_mem (List.mem_append_right _ ?_))
  simp only [h, if_true]
  exact List.mem_singleton_self _

/-- A caller may read the files of its account. -/
theorem reads_calls : Reads (callProtocol s opts d) (accountView s d.1.account (fun w p => w.steady d p = true) (Filed s.base))
    (Undecided d) (Stopped d) s d.1.account (fun _ _ => True) where
  fits := fits_account stable_undecided (fun w w' q hu => hu.steady q) (fun w c q p _ h => (Bool.and_eq_true_iff.mp h).1)
    (fun w q _ hw h => hw.steady d q h) (fun w q _ hw _ hs => hw.tidy.file q hs)
  real := fun p hp => hp
  limit := rfl
  lasts := fun e w w' h hu he => hu.1.events.subset (h he)
  keeps := by
    rintro e q w r w' ⟨-, ⟨-, c, -, rfl⟩, -⟩ h he
    rw [events_after]
    exact List.mem_append_left _ (h he)
  unread := by
    rintro e w ⟨rfl, -⟩
    exact ⟨nofun, nofun⟩
  may := fun _ _ => ⟨trivial, trivial, fun _ => trivial⟩
  alive := by
    rintro w r w' h ⟨hw, ⟨-, c, rfl, rfl⟩, hw'⟩
    exact ⟨h.undisturbed (undisturbed_of_quiet (s := s) trivial), _, rfl, fun _ => nofun⟩
  info := by
    rintro p w r w' h ⟨-, hfiled⟩ ⟨hw, ⟨-, c, rfl, rfl⟩, hw'⟩
    refine ⟨h.undisturbed (undisturbed_of_quiet (s := s) trivial), _, rfl, fun _ _ => trivial, fun e he hgone => ?_⟩
    cases hgone
    rw [info_reply] at he
    split_ifs at he
    · cases he
    · refine vanished_after (Option.not_isSome_iff_eq_none.mp (fun hs => ?_))
      obtain ⟨content, hcontent⟩ := Option.isSome_iff_exists.mp hs
      rw [stat_of_file hcontent] at he
      cases he
  stat := fun w r w' h hstep => lstat_home stable_undecided (fun w q _ hw h => hw.steady d q h) w r w' h hstep

/-! ## The programs of the calls -/

theorem complete_of_not_listed (h : ∀ objects, r ≠ .ok (.listed objects)) : Complete s d r w :=
  fun objects hr => absurd hr (h objects)

/-- A call whose program returns what it is ready to return. -/
theorem wp_ready {α : Type} {p : Fs α} {f : α → Result} {outcome : Except StoreError α → Outcome}
    (hok : ∀ a, outcome (.ok a) = .ok (f a)) (herror : ∀ e, outcome (.error e) = .error e) (hf : ∀ a objects, f a ≠ .listed objects)
    (h : (callProtocol s opts d).wp (fun a => Settled s d (outcome (.ok a))) (fun e => Settled s d (outcome (.error e))) p w) :
    (callProtocol s opts d).wp (Ready s d) (fun _ _ => True) (Fs.attempt (p.bind (fun a => pure (f a)))) w := by
  refine wp_attempt (fun r => stable_ready) (Protocol.wp_bind (Protocol.wp_mono h (fun a w₁ h₁ => ?_) (fun e w₁ h₁ => ?_)))
  · rw [hok] at h₁
    have hready : Ready s d (.ok (f a)) w₁ :=
      ⟨h₁, complete_of_not_listed (fun objects h => hf a objects (Except.ok.inj h))⟩
    exact fun w₂ h₂ => stable_ready _ _ hready h₂
  · rw [herror] at h₁
    exact ⟨h₁, complete_of_not_listed (fun _ => nofun)⟩

/-- A listing may return anything that it has come to. -/
theorem ready_of_followed {objects : List Object} (hlist : d.1.lists = true)
    (h : Followed (accountView s d.1.account (fun w p => w.steady d p = true) (Filed s.base)) (Undecided d) (Stopped d) s d.1.account
      (fun _ _ => True) d.1.pre (fun _ => True) objects w) : Ready s d (.ok (.listed objects)) w := by
  refine ⟨Or.inr ⟨h.1, Or.inl hlist⟩, fun objects' hr => ?_⟩
  cases hr
  exact h.2.imp_right (fun hf => hf rfl)

theorem ready_of_undecided (hlist : d.1.lists = true) (hr : ∀ objects, r ≠ .ok (.listed objects)) (h : Undecided d w) :
    Ready s d r w := ⟨Or.inr ⟨h, Or.inl hlist⟩, complete_of_not_listed hr⟩

/-- A page, asked for by a call. -/
theorem wp_page (cursor : GoString) (limit : ℤ) (h : Undecided d w) :
    (callProtocol s opts d).wp
      (Paged (accountView s d.1.account (fun w p => w.steady d p = true) (Filed s.base)) (Undecided d) (Stopped d) s d.1.account
        (fun _ _ => True) d.1.pre cursor) (fun _ => Undecided d) (s.List d.1.account.id d.1.pre cursor limit) w :=
  wp_List reads_calls (fun _ _ _ h _ _ => h) (fun _ _ _ h => h) h limit

/-- The rule of every program: its call returns what it was answered, or has an excuse. -/
theorem wp_program (h : Undecided d w) : (callProtocol s opts d).wp (Ready s d) (fun _ _ => True) (program s opts d.1) w := by
  obtain ⟨op, n⟩ := d
  cases op with
  | put a name data =>
    exact wp_ready (fun _ => rfl) (fun _ => rfl) (fun _ _ => nofun) (wp_Put h rfl)
  | get a name =>
    exact wp_ready (fun _ => rfl) (fun _ => rfl) (fun _ _ => nofun) (wp_Get h rfl)
  | delete a name =>
    exact wp_ready (fun _ => rfl) (fun _ => rfl) (fun _ _ => nofun) (wp_Delete h rfl)
  | follow a pre limit pages =>
    refine wp_attempt (fun r => stable_ready) (Protocol.wp_bind (Protocol.wp_mono (wp_followPages reads_calls
      (fun cursor w h => wp_page cursor limit h) (fun _ _ _ h => h.1) pages [] [] w (following_start pages h))
      (fun objects w₁ h₁ => ?_) (fun e w₁ h₁ => ready_of_undecided rfl (fun _ => nofun) h₁)))
    exact fun w₂ h₂ => stable_ready _ _ (ready_of_followed rfl h₁) h₂
  | fetch a pre pages =>
    refine wp_attempt (fun r => stable_ready) (Protocol.wp_bind (Protocol.wp_mono (wp_fetchPages reads_calls opts
      (fun _ => stable_undecided) (fun cursor w h => wp_page cursor 1000 h) (fun _ _ _ h => h.1) pages [] [] w
      (following_start pages h)) (fun r w₁ h₁ => ?_) (fun e w₁ h₁ => ready_of_undecided rfl (fun _ => nofun) h₁)))
    cases r with
    | ok objects => exact fun w₂ h₂ => stable_ready _ _ (ready_of_followed rfl h₁) h₂
    | error status =>
      obtain ⟨-, hun⟩ := h₁
      exact fun w₂ h₂ => stable_ready _ _ (ready_of_undecided rfl (fun _ => nofun) hun) h₂

/-! ## Calls and returns -/

/-- A world in which only the calls of `d` have changed. -/
structure OnlyCalls (d : Party) (w w' : World) : Prop where
  machine : w'.machine = w.machine
  holder : w'.holder = w.holder
  object : w'.spec.object = w.spec.object
  calls : ∀ d', d' ≠ d → w'.spec.calls d' = w.spec.calls d'
  events : w.spec.events <+: w'.spec.events
  noStrike : struck w'.spec.events → struck w.spec.events
  steady : ∀ d', d' ≠ d → w'.steady d' = w.steady d'
  now : ∀ p, w'.steady d p = true → w.steady d p = true ∨ (w.machine.disk.fileAt p).isSome = true

theorem OnlyCalls.consistent (h : OnlyCalls d w w') (hw : Consistent s w) : Consistent s w' := by
  have hstruck : struck w'.spec.events ↔ struck w.spec.events := ⟨h.noStrike, fun hs => h.events.subset hs⟩
  have htotal : ∀ a : Account, w'.spec.object.total a.id = w.spec.object.total a.id := fun a => by rw [h.object]
  refine ⟨by rw [h.machine]; exact hw.tidy, by rw [h.object, h.machine]; exact hw.object, fun hq a => ?_, fun a ha => ?_,
    fun a ha => ?_, fun e p hp => ?_⟩
  · rw [htotal]
    exact hw.quota hq a
  · rw [h.holder] at ha
    unfold CacheRight
    rw [h.machine, hstruck, htotal]
    exact hw.cache a ha
  · rw [h.holder] at ha
    unfold Clean
    rw [h.machine, hstruck]
    exact hw.clean a ha
  · rw [h.machine]
    by_cases he : e = d
    · rw [he] at hp
      exact (h.now p hp).elim (hw.steady d p) id
    · rw [h.steady e he] at hp
      exact hw.steady e p hp

theorem OnlyCalls.undisturbed (h : OnlyCalls d w w') (hd : d' ≠ d) : Undisturbed s d' w w' where
  calls := h.calls d' hd
  events := h.events
  dirs := fun p hp => by rwa [h.machine]
  steady := fun p hp => by rwa [h.steady d' hd] at hp
  holder := fun a ha => by rwa [h.holder]
  usage := fun a _ => by rw [h.machine]
  contents := fun a _ name => by rw [h.object]
  files := fun a _ p _ => by rw [h.machine]

theorem not_struck_concat {events : Events} {e : CallEvent Party Note Outcome} (he : e ≠ .noted .strike) :
    struck (events ++ [e]) → struck events := fun h =>
  (List.mem_append.mp h).resolve_right (fun h => he (List.mem_singleton.mp h).symm)

theorem onlyCalls_enter (d : Party) (w : World) : OnlyCalls d w (w.enter d) where
  machine := rfl
  holder := rfl
  object := rfl
  calls := fun _ hd => Function.update_of_ne hd _ _
  events := List.prefix_append _ _
  noStrike := not_struck_concat nofun
  steady := fun _ hd => Function.update_of_ne hd _ _
  now := fun p hp => by
    rw [show (w.enter d).steady d = _ from Function.update_self _ _ _] at hp
    exact Or.inr hp

theorem onlyCalls_crash (d : Party) (w : World) : OnlyCalls d w (w.crash d) where
  machine := rfl
  holder := rfl
  object := rfl
  calls := fun _ hd => Function.update_of_ne hd _ _
  events := List.prefix_refl _
  noStrike := id
  steady := fun _ _ => rfl
  now := fun _ hp => Or.inl hp

theorem onlyCalls_leave (d : Party) (r : Except StoreError Outcome) (w : World) : OnlyCalls d w (w.leave d r) := by
  cases r with
  | error e => exact onlyCalls_crash d w
  | ok r =>
    exact ⟨rfl, rfl, rfl, fun _ hd => Function.update_of_ne hd _ _, List.prefix_append _ _, not_struck_concat nofun,
      fun _ _ => rfl, fun _ hp => Or.inl hp⟩

theorem undecided_enter (d : Party) (w : World) : Undecided d (w.enter d) := Function.update_self _ _ _

/-- What a run of the callers keeps. -/
theorem sound_calls : Threads.Sound (calls s opts) (Consistent s) (callProtocol s opts) (Ready s) where
  served := fun d q w r w' hw hs hw' => ⟨hw, hs, hw'⟩
  enter := fun d w hw => by
    have hw' := (onlyCalls_enter d w).consistent hw
    exact ⟨hw', fun d' hd => ⟨(onlyCalls_enter d w).undisturbed hd, fun _ => hw'⟩, wp_program (undecided_enter d w)⟩
  step := by
    rintro d q w r w' hw hq ⟨hlock, c, rfl, rfl⟩
    have hw' := consistent_after (c := c) hw hq
    exact ⟨hw', fun d' hd => ⟨undisturbed_other hw hd hq hlock, fun _ => hw'⟩⟩
  leave := fun d r w hw _ => by
    have hw' := (onlyCalls_leave d r w).consistent hw
    exact ⟨hw', fun d' hd => ⟨(onlyCalls_leave d r w).undisturbed hd, fun _ => hw'⟩⟩
  env := fun _ _ _ h => h.elim
  crash := fun d w hw => by
    have hw' := (onlyCalls_crash d w).consistent hw
    exact ⟨hw', fun d' hd => ⟨(onlyCalls_crash d w).undisturbed hd, fun _ => hw'⟩⟩

/-! ## The refinement -/

/-- A store as it is opened on a disk. -/
def World.start (s : FSStore) (disk : Disk) : World where
  machine := ⟨disk, fun _ => none⟩
  holder := fun _ => none
  spec := ⟨heldOn s.base disk, fun _ => none, [], []⟩
  steady := fun _ _ => false

variable (s)

/-- A disk that a store may be opened on: what the store has put there, without left-over temporary files, and no account
over the quota. -/
structure Opens (disk : Disk) : Prop where
  tidy : Tidy s.base disk
  clean : ∀ p, IsTemp (p.getLastD []) → disk.fileAt p = none
  quota : 0 < s.quota → ∀ a : Account, ((heldOn s.base disk).total a.id : ℤ) ≤ s.quota

variable {s}

/-- What a new store has made: its root. -/
def Disk.fresh (base : Path) : Disk := Disk.makeDirs ⟨Table.empty, Table.empty⟩ base

theorem dir_fresh {base p : Path} : (Disk.fresh base).isDirAt p = true ↔ p <+: base := by
  unfold Disk.fresh
  rw [Disk.isDirAt_makeDirs]
  exact or_iff_right (fun h => absurd h nofun)

theorem opens_fresh : Opens s (Disk.fresh s.base) where
  tidy :=
    { file := fun p h => absurd h nofun
      dir := fun p h hbase => by
        have := (dir_fresh.mp h).length_le
        omega
      above_file := fun p h => absurd h nofun
      above_dir := fun p h => dir_fresh.mpr ((List.dropLast_prefix p).trans (dir_fresh.mp h))
      root := dir_fresh.mpr (List.prefix_refl _) }
  clean := fun p _ => rfl
  quota := fun hpos a => hpos.le

/-- Nobody has called yet. -/
def opened (s : FSStore) (disk : Disk) : Calling := ⟨World.start s disk, fun _ => none⟩

theorem consistent_start {disk : Disk} (h : Opens s disk) : Consistent s (World.start s disk) :=
  ⟨h.tidy, rfl, h.quota, fun _ _ _ hused => absurd hused nofun, fun _ _ _ p _ ht => h.clean p ht, fun _ _ => nofun⟩

/-- What holds of every configuration that is reached. -/
structure Kept (s : FSStore) (opts : Options) (c : Calling) : Prop where
  kept : Threads.Kept (Consistent s) (callProtocol s opts) (Ready s) c
  idle : ∀ d, c.running d = none → c.store.spec.calls d = none

theorem asks_deciding {c : Choice} {q : FsRequest} (hq : Asks s d q w) (h : Deciding s d c q w) : Undecided d w := by
  cases q with
  | readFile p => exact hq.2.2
  | loadUsage account => exact hq.2.2.2.2
  | storeUsage account total => exact hq.2.2.2.1
  | rename tmp p =>
    obtain ⟨-, -, -, data, -, hmay⟩ := hq
    exact hmay.undecided
  | remove p =>
    obtain ⟨a, name, hop, -⟩ := decides_remove h
    rcases hq.2 with ⟨-, hne⟩ | ⟨-, -, -, hun⟩
    · exact absurd hop (hne a name)
    · exact hun
  | _ =>
    obtain ⟨op, n⟩ := d
    cases op <;> cases h

theorem reach_notes (T : Atomic Party Op Note Answer Outcome Held) (l : List Note)
    (spec : Atomic.State Party Note Answer Outcome Held) : T.Reach spec (l.foldl Atomic.State.note spec) := by
  induction l generalizing spec with
  | nil => exact Relation.ReflTransGen.refl
  | cons n l ih => exact Relation.ReflTransGen.head (Atomic.Step.note spec n) (ih _)

/-- A request of a caller is a few notes, and the act of its call where it decides. -/
theorem refines_after {c : Choice} {q : FsRequest} (hq : Asks s d q w) : (objects s.quota).Reach w.spec (w.after s d c q).spec := by
  have hnotes := reach_notes (objects s.quota) (notes d c q w.machine) w.spec
  show (objects s.quota).Reach w.spec (specAfter s d c q w)
  by_cases h : Deciding s d c q w
  · rw [specAfter_deciding s h]
    rw [foldl_note] at hnotes
    exact hnotes.tail (Atomic.Step.act _ d (asks_deciding hq h))
  · rw [specAfter_not_deciding s h, ← foldl_note]
    exact hnotes

/-- A return is that of a call that was answered, or has an excuse. -/
theorem refines_leave (h : Settled s d r w) : (objects s.quota).Reach w.spec (w.leave d (.ok r)).spec := by
  rcases h with ⟨answer, hcall, hr⟩ | ⟨hun, hex⟩
  · exact Relation.ReflTransGen.single (Atomic.Step.answer w.spec d answer r hcall hr)
  · exact Relation.ReflTransGen.single (Atomic.Step.excuse w.spec d r hun hex)

/-- The step lemma of the refinement. -/
theorem refines_step {c c' : Calling} (hc : Kept s opts c) (h : (calls s opts).Step c c') :
    (objects s.quota).Reach c.store.spec c'.store.spec ∧ Kept s opts c' := by
  have hkept := sound_calls.step_kept hc.kept h
  have hother : ∀ {d : Party} {w : World} {o : Option (Fs Outcome)}, (∀ d', d' ≠ d → w.spec.calls d' = c.store.spec.calls d') →
      (o = none → w.spec.calls d = none) → ∀ d', Function.update c.running d o d' = none → w.spec.calls d' = none := by
    intro d w o hsame hown d' hrun
    by_cases hd : d' = d
    · subst hd
      rw [Function.update_self] at hrun
      exact hown hrun
    · rw [Function.update_of_ne hd] at hrun
      rw [hsame d' hd]
      exact hc.idle d' hrun
  cases h with
  | enter d h =>
    exact ⟨Relation.ReflTransGen.single (Atomic.Step.call _ d (hc.idle d h)),
      hkept, hother (onlyCalls_enter d c.store).calls nofun⟩
  | ask d q k r w h hs =>
    have hq : Asks s d q c.store := hc.kept.pre h
    obtain ⟨hlock, choice, rfl, rfl⟩ := hs
    exact ⟨refines_after hq, hkept, hother (fun d' hd => calls_after_other s hd) nofun⟩
  | done d r h =>
    have hready : Ready s d r c.store := hc.kept.2 d _ h c.store ((callProtocol s opts d).rely_refl _)
    exact ⟨refines_leave hready.1, hkept, hother (onlyCalls_leave d (.ok r) c.store).calls
      (fun _ => Function.update_self _ _ _)⟩
  | failed d e h =>
    exact ⟨Relation.ReflTransGen.single (Atomic.Step.lose _ d), hkept,
      hother (onlyCalls_crash d c.store).calls (fun _ => Function.update_self _ _ _)⟩
  | env w h => exact h.elim
  | crash d =>
    exact ⟨Relation.ReflTransGen.single (Atomic.Step.lose _ d), hkept,
      hother (onlyCalls_crash d c.store).calls (fun _ => Function.update_self _ _ _)⟩

/-- The run lemma of the refinement. -/
theorem refines_reach {c c' : Calling} (hc : Kept s opts c) (h : (calls s opts).Reach c c') :
    (objects s.quota).Reach c.store.spec c'.store.spec ∧ Kept s opts c' := by
  induction h with
  | refl => exact ⟨Relation.ReflTransGen.refl, hc⟩
  | tail _ hstep ih =>
    obtain ⟨hreach, hk⟩ := refines_step ih.2 hstep
    exact ⟨ih.1.trans hreach, hk⟩

theorem kept_opened {disk : Disk} (h : Opens s disk) : Kept s opts (opened s disk) :=
  ⟨Threads.kept_of_idle (consistent_start h) (fun _ => rfl), fun _ _ => rfl⟩

/-! ## What the store promises -/

/-- What an act makes of the bytes of a name: a successful put leaves its bytes, a deletion nothing. -/
def storedBy (account name : GoString) (old : Option GoString) : Party × Answer → Option GoString
  | ((.put a n data, _), .stored) => if account = a.id ∧ name = n then some data else old
  | ((.delete a n, _), _) => if account = a.id ∧ name = n then none else old
  | _ => old

/-- The bytes of the successful put since the last deletion. -/
def lastStored (account name : GoString) (start : Option GoString) (acts : List (Party × Answer)) : Option GoString :=
  acts.foldl (storedBy account name) start

section Acts

variable {quota : ℤ} {held : Held} {a : Account} {account name data : GoString}

theorem put_stored_iff : ((Op.put a name data).apply quota held).1 = .stored ↔ held.content a.id name = some data ∨
    (held.content a.id name = none ∧ (0 < quota → (held.total a.id + data.length : ℕ) ≤ quota)) := by
  cases hc : held.content a.id name with
  | some existing =>
    rw [apply_put_taken hc]
    by_cases hsame : existing = data
    · simp [hsame]
    · simp [hsame]
  | none =>
    by_cases hfull : 0 < quota ∧ quota < (held.total a.id + data.length : ℕ)
    · rw [apply_put_refused hc hfull]
      refine ⟨nofun, ?_⟩
      rintro (h | ⟨-, h⟩)
      · cases h
      · exact absurd hfull.2 (not_lt.mpr (h hfull.1))
    · rw [apply_put_stored hc hfull]
      exact ⟨fun _ => Or.inr ⟨rfl, fun hpos => not_lt.mp (fun hlt => hfull ⟨hpos, hlt⟩)⟩, fun _ => rfl⟩

/-- The step lemma of `lastStored`. -/
theorem content_apply (d : Party) : (d.1.apply quota held).2.content account name =
    storedBy account name (held.content account name) (d, (d.1.apply quota held).1) := by
  obtain ⟨op, n⟩ := d
  cases op with
  | put a n' data =>
    cases hc : held.content a.id n' with
    | some existing =>
      rw [apply_put_taken hc]
      by_cases hsame : existing = data
      · rw [if_pos hsame]
        show held.content account name = if account = a.id ∧ name = n' then some data else held.content account name
        split_ifs with h
        · rw [h.1, h.2, hc, hsame]
        · rfl
      · rw [if_neg hsame]
        rfl
    | none =>
      by_cases hfull : 0 < quota ∧ quota < (held.total a.id + data.length : ℕ)
      · rw [apply_put_refused hc hfull]
        rfl
      · rw [apply_put_stored hc hfull]
        exact Held.content_put _
  | get a n' =>
    cases hc : held.content a.id n' with
    | some data =>
      rw [apply_get_found hc]
      rfl
    | none =>
      rw [apply_get_missing hc]
      rfl
  | delete a n' => exact Held.content_delete _ _
  | _ => rfl

/-- What the map has for a name is what was stored last. -/
theorem content_replay (acts : List (Party × Answer)) (h : (objects quota).Answered acts held) :
    ((objects quota).replay acts held).content account name = lastStored account name (held.content account name) acts := by
  induction acts generalizing held with
  | nil => rfl
  | cons x acts ih =>
    obtain ⟨d, answer⟩ := x
    have hanswer : answer = (d.1.apply quota held).1 := h.1
    refine (ih h.2).trans ?_
    show lastStored account name ((d.1.apply quota held).2.content account name) acts = _
    rw [content_apply, ← hanswer]
    rfl

/-- What is answered with an error does nothing. -/
theorem apply_error {op : Op} {e : StoreError} (h : op.Answers quota (op.apply quota held).1 (.error e)) :
    (op.apply quota held).2 = held := by
  cases op with
  | put a name data =>
    cases hc : held.content a.id name with
    | some existing => rw [apply_put_taken hc]
    | none =>
      by_cases hfull : 0 < quota ∧ quota < (held.total a.id + data.length : ℕ)
      · rw [apply_put_refused hc hfull]
      · rw [apply_put_stored hc hfull] at h
        cases h
  | get a name =>
    cases hc : held.content a.id name with
    | some data => rw [apply_get_found hc]
    | none => rw [apply_get_missing hc]
  | delete a name => cases h
  | _ => exact h.elim

/-- No operation replaces bytes by others. -/
theorem apply_immutable (op : Op) {x y : GoString} (hx : held.content account name = some x)
    (hy : (op.apply quota held).2.content account name = some y) : x = y := by
  have hsame : held.content account name = some y → x = y := fun h => Option.some.inj (hx.symm.trans h)
  cases op with
  | put a n data =>
    cases hc : held.content a.id n with
    | some existing =>
      rw [apply_put_taken hc] at hy
      exact hsame hy
    | none =>
      by_cases hfull : 0 < quota ∧ quota < (held.total a.id + data.length : ℕ)
      · rw [apply_put_refused hc hfull] at hy
        exact hsame hy
      · rw [apply_put_stored hc hfull] at hy
        have hput : (held.put ⟨a.id, n, data⟩).content account name = some y := hy
        rw [Held.content_put] at hput
        split_ifs at hput with h
        · rw [h.1, h.2, hc] at hx
          cases hx
        · exact hsame hput
  | get a n =>
    refine hsame ?_
    cases hc : held.content a.id n with
    | some data => rwa [apply_get_found hc] at hy
    | none => rwa [apply_get_missing hc] at hy
  | delete a n =>
    have hdelete : (held.delete a.id n).content account name = some y := hy
    rw [Held.content_delete] at hdelete
    split_ifs at hdelete
    exact hsame hdelete
  | _ => exact hsame hy

end Acts

/-- What a step does to the map: nothing, or what one of the operations does. -/
theorem object_of_step {c c' : Calling} (h : (calls s opts).Step c c') :
    c'.store.spec.object = c.store.spec.object ∨ ∃ d : Party, c'.store.spec.object = (d.1.apply s.quota c.store.spec.object).2 := by
  cases h with
  | enter d h => exact Or.inl rfl
  | ask d q k r w h hs =>
    obtain ⟨-, choice, rfl, rfl⟩ := hs
    by_cases hdec : Deciding s d choice q c.store
    · exact Or.inr ⟨d, object_after_deciding s hdec⟩
    · exact Or.inl (object_after s hdec)
  | done d r h => exact Or.inl (onlyCalls_leave d (.ok r) c.store).object
  | failed d e h => exact Or.inl (onlyCalls_leave d (.error e) c.store).object
  | env w h => exact h.elim
  | crash d => exact Or.inl rfl

variable (s opts)

/-- What the store promises of a configuration that it has come to from `disk`. -/
structure Honours (disk : Disk) (c : Calling) : Prop where
  /-- The calls are calls of the map, made and returned in the same order. -/
  refines : (objects s.quota).Reach (World.start s disk).spec c.store.spec
  /-- The disk holds the map, and the map is what the acts of the calls have made of it. -/
  holds : heldOn s.base c.store.machine.disk = c.store.spec.object ∧
    c.store.spec.object = (objects s.quota).replay c.store.spec.acts (heldOn s.base disk)
  get : ∀ before a name n answer after, c.store.spec.acts = before ++ ((.get a name, n), answer) :: after →
    answer = match lastStored a.id name ((heldOn s.base disk).content a.id name) before with
      | some data => .found data
      | none => .missing
  put : ∀ before a name data n answer after, c.store.spec.acts = before ++ ((.put a name data, n), answer) :: after →
    (answer = .stored ↔ lastStored a.id name ((heldOn s.base disk).content a.id name) before = some data ∨
      (lastStored a.id name ((heldOn s.base disk).content a.id name) before = none ∧ (0 < s.quota →
        ((((objects s.quota).replay before (heldOn s.base disk)).total a.id + data.length : ℕ) : ℤ) ≤ s.quota)))
  /-- An act that is answered with an error does nothing. -/
  error : ∀ before d answer after e, c.store.spec.acts = before ++ (d, answer) :: after →
    d.1.Answers s.quota answer (.error e) →
    (objects s.quota).replay (before ++ [(d, answer)]) (heldOn s.base disk) =
      (objects s.quota).replay before (heldOn s.base disk)
  /-- A call returns what its act was answered, or an error without having acted; for a valid name and a live context
  that takes a failed call of the file system. -/
  returned : ∀ d r, c.running d = some (.pure r) → d.1.lists = false →
    (∃ answer, c.store.spec.calls d = some (some answer) ∧ d.1.Answers s.quota answer r) ∨
    (c.store.spec.calls d = some none ∧ (∃ e, r = .error e) ∧
      (validateName d.1.name = .ok () → .noted (.gaveUp d) ∉ c.store.spec.events → struck c.store.spec.events))
  /-- Bytes are never replaced by others. -/
  immutable : ∀ c', (calls s opts).Step c c' → ∀ a : Account, ∀ name x y,
    (heldOn s.base c.store.machine.disk).content a.id name = some x →
    (heldOn s.base c'.store.machine.disk).content a.id name = some y → x = y
  quota : 0 < s.quota → ∀ a : Account, ((heldOn s.base c.store.machine.disk).total a.id : ℤ) ≤ s.quota
  /-- A usage that is consulted is never below the total. -/
  cached : ∀ d account k used, c.running d = some (.ask (.loadUsage account) k) →
    c.store.machine.usages account = some used → (heldOn s.base c.store.machine.disk).total account ≤ used

variable {s opts}

/-- A call that returns without having acted. -/
theorem excused (hlist : d.1.lists = false) (h : Excuses s.quota w.spec.events d r) :
    (∃ e, r = .error e) ∧ (validateName d.1.name = .ok () → .noted (.gaveUp d) ∉ w.spec.events → struck w.spec.events) := by
  rcases h with h | ⟨fault, hn, rfl⟩ | ⟨hg, rfl⟩ | ⟨hs, ⟨step, e, rfl⟩ | ⟨used, rfl⟩⟩
  · exact absurd (hlist.symm.trans h) (by decide)
  · exact ⟨⟨_, rfl⟩, fun hok => absurd (hn.symm.trans hok) nofun⟩
  · exact ⟨⟨_, rfl⟩, fun _ hn => absurd hg hn⟩
  · exact ⟨⟨_, rfl⟩, fun _ _ => hs⟩
  · exact ⟨⟨_, rfl⟩, fun _ _ => hs⟩

/-- The store is an immutable map with a quota: whatever its callers do, in whatever order, and whatever fails. -/
theorem store_refines_map {disk : Disk} (h : Opens s disk) {c : Calling} (hr : (calls s opts).Reach (opened s disk) c) :
    Honours s opts disk c := by
  obtain ⟨hreach, hc⟩ := refines_reach (kept_opened h) hr
  have hw : Consistent s c.store := hc.kept.1
  have hobject := hw.object
  obtain ⟨acts, hacts, hreplay, hanswered⟩ := Atomic.Reach.replay hreach
  have hacts : c.store.spec.acts = acts := hacts
  have hreplay : c.store.spec.object = (objects s.quota).replay acts (heldOn s.base disk) := hreplay
  have hanswered : (objects s.quota).Answered acts (heldOn s.base disk) := hanswered
  have hat : ∀ before d answer after, c.store.spec.acts = before ++ (d, answer) :: after →
      (objects s.quota).Answered before (heldOn s.base disk) ∧
        answer = (d.1.apply s.quota ((objects s.quota).replay before (heldOn s.base disk))).1 := by
    intro before d answer after hsplit
    rw [hacts] at hsplit
    rw [hsplit] at hanswered
    exact hanswered.at
  refine ⟨hreach, ⟨hobject.symm, hacts ▸ hreplay⟩, ?_, ?_, ?_, ?_, ?_, ?_, ?_⟩
  · intro before a name n answer after hsplit
    obtain ⟨hbefore, rfl⟩ := hat before _ answer after hsplit
    rw [← content_replay before hbefore]
    cases hcontent : ((objects s.quota).replay before (heldOn s.base disk)).content a.id name with
    | some data => rw [apply_get_found hcontent]
    | none => rw [apply_get_missing hcontent]
  · intro before a name data n answer after hsplit
    obtain ⟨hbefore, rfl⟩ := hat before _ answer after hsplit
    rw [← content_replay before hbefore]
    exact put_stored_iff
  · intro before d answer after e hsplit hanswer
    obtain ⟨-, rfl⟩ := hat before d answer after hsplit
    rw [Atomic.replay_concat]
    exact apply_error hanswer
  · intro d r hrun hlist
    have hready : Ready s d r c.store := hc.kept.2 d _ hrun c.store ((callProtocol s opts d).rely_refl _)
    exact hready.1.imp_right (And.imp_right (excused hlist))
  · intro c' hstep a name x y hx hy
    have hw' : Consistent s c'.store := (refines_step hc hstep).2.kept.1
    rw [← hobject] at hx
    rw [← hw'.object] at hy
    rcases object_of_step hstep with hsame | ⟨d, hact⟩
    · rw [hsame, hx] at hy
      exact Option.some.inj hy
    · rw [hact] at hy
      exact apply_immutable d.1 hx hy
  · intro hpos a
    rw [← hobject]
    exact hw.quota hpos a
  · intro d account k used hrun hused
    have hq : Asks s d (.loadUsage account) c.store := hc.kept.pre hrun
    obtain ⟨rfl, -, hcache, -⟩ := hq
    rw [← hobject]
    exact (hcache used hused).1

/-! ### A store that is asked for a put -/

def sampleStore (quota : ℤ) : FSStore where
  root := go "/data"
  isRoot := ⟨[go "data"], by decide +kernel, by
    intro x hx
    rw [List.mem_singleton.mp hx]
    exact ⟨by decide +kernel, by decide +kernel, by decide +kernel, by decide +kernel⟩⟩
  quota := quota
  depth := 5
  deep := le_refl _

def sampleOptions : Options := ⟨0, id, id⟩

def alice : Account := ⟨go "alice", by decide +kernel⟩

def sampleName : GoString := go "vaults/v/ops/0000000000000000001-0000-a.edk"

def putSample : Party := (.put alice sampleName (go "x"), 0)

/-- One put, from its call to its return. -/
def putMoves : List Move := [.enter putSample, .finish putSample]

def putRun (quota : ℤ) : Calling :=
  putMoves.foldl (play (sampleStore quota) sampleOptions) (opened (sampleStore quota) (Disk.fresh (sampleStore quota).base))

theorem reach_putRun {quota : ℤ} (h : meetsAll (sampleStore quota) sampleOptions (fun _ _ => true)
    (opened (sampleStore quota) (Disk.fresh (sampleStore quota).base)) putMoves = true) :
    (calls (sampleStore quota) sampleOptions).Reach (opened (sampleStore quota) (Disk.fresh (sampleStore quota).base))
      (putRun quota) := reach_moves _ _ h

def secondName : GoString := go "vaults/v/ops/0000000000000000002-0000-a.edk"

def putSecond : Party := (.put alice secondName (go "y"), 0)

def getSample (n : ℕ) : Party := (.get alice sampleName, n)

def deleteSample : Party := (.delete alice sampleName, 0)

/-- An object is put and read, a second put fails at its rename, and the first object is deleted and asked for again. -/
def mixedMoves : List Move := putMoves ++ [.enter (getSample 0), .finish (getSample 0), .enter putSecond, .ask putSecond 17,
  .fail putSecond, .finish putSecond, .enter deleteSample, .finish deleteSample, .enter (getSample 1), .finish (getSample 1)]

def mixedRun : Calling :=
  mixedMoves.foldl (play (sampleStore 10) sampleOptions) (opened (sampleStore 10) (Disk.fresh (sampleStore 10).base))

theorem store_refines_map_mixedRun : Honours (sampleStore 10) sampleOptions (Disk.fresh (sampleStore 10).base) mixedRun ∧
    mixedRun.store.spec.acts.map Prod.snd = [.stored, .found (go "x"), .deleted, .missing] :=
  ⟨store_refines_map opens_fresh (reach_moves mixedMoves _ (by decide +kernel)), by decide +kernel⟩

/-- A quota below zero is not zero, and no limit. -/
theorem negative_quota_is_no_limit : (sampleStore (-1)).quota ≠ 0 ∧
    ∃ c, (calls (sampleStore (-1)) sampleOptions).Reach (opened (sampleStore (-1)) (Disk.fresh (sampleStore (-1)).base)) c ∧
      ¬ ((heldOn (sampleStore (-1)).base c.store.machine.disk).total alice.id : ℤ) ≤ (sampleStore (-1)).quota :=
  ⟨by decide, putRun (-1), reach_putRun (by decide +kernel), by decide +kernel⟩

end Server

end EasyDocket
