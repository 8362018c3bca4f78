import EasyDocket.Server.Consistency
import EasyDocket.Server.Walks

/-!
# Measuring an account

The rules for a caller among others, what it may count on for how long, walks over the directory of an account, and the
quota check of a put: a usage is never found too small, and without a failure it is exact.
-/

namespace EasyDocket

namespace Server

/-- A caller among others. -/
def callProtocol (s : FSStore) (opts : Options) (d : Party) : Protocol FsRequest FsRequest.Reply StoreError World where
  step := fun q w r w' => Consistent s w ∧ (calls s opts).step d q w r w' ∧ Consistent s w'
  rely := fun w w' => Undisturbed s d w w' ∧ (Consistent s w → Consistent s w')
  rely_refl := fun w => ⟨Undisturbed.refl s d w, id⟩
  rely_trans := fun h h' => ⟨h.1.trans h'.1, h'.2 ∘ h.2⟩
  pre := Asks s d

section Calls

variable {s : FSStore} {opts : Options} {d : Party} {w w' : World} {c : Choice} {q : FsRequest}

/-! ## Rules -/

section Rules

variable {α β : Type} {post : β → World → Prop} {xpost : StoreError → World → Prop} {I : World → Prop}

/-- A request under a stable assertion. -/
theorem wp_call {f : q.Reply → Fs β} (hI : (callProtocol s opts d).Stable I) (h : I w) (hasks : ∀ w, I w → Asks s d q w)
    (hok : ∀ w c, I w → Consistent s w → Consistent s (w.after s d c q) →
      (callProtocol s opts d).wp post xpost (f (serve c q w.machine).1) (w.after s d c q)) :
    (callProtocol s opts d).wp post xpost ((Fs.ask q).bind f) w := by
  refine Protocol.wp_request_served hI h hasks (fun w₁ r w₂ h₁ hstep => ?_)
  obtain ⟨hw₁, ⟨-, c, rfl, rfl⟩, hw₂⟩ := hstep
  exact ⟨_, rfl, hok w₁ c h₁ hw₁ hw₂⟩

/-- Requests that decide nothing and leave files, usages and locks alone. -/
def Quiet : FsRequest → Prop
  | .ctxErr => True
  | .mkdirAll _ => True
  | .sync _ => True
  | .close _ => True
  | .chmod _ => True
  | .lstat _ => True
  | .readDir _ => True
  | .info _ => True
  | _ => False

theorem undisturbed_of_quiet (hq : Quiet q) : Undisturbed s d w (w.after s d c q) := by
  have hdec : ¬ Deciding s d c q w := by
    unfold Deciding
    obtain ⟨op, n⟩ := d
    cases q <;> first | exact hq.elim | (cases op <;> exact Bool.false_ne_true)
  cases q <;> first
    | exact hq.elim
    | exact undisturbed_quiet s hdec (fun _ h => h) (fun _ h => h) rfl

/-- A quiet request keeps what is stable. -/
theorem wp_quiet {f : q.Reply → Fs β} (hq : Quiet q) (hI : (callProtocol s opts d).Stable I) (h : I w)
    (hasks : ∀ w, I w → Asks s d q w)
    (hok : ∀ w c, I w → I (w.after s d c q) → Consistent s w → Consistent s (w.after s d c q) →
      (callProtocol s opts d).wp post xpost (f (serve c q w.machine).1) (w.after s d c q)) :
    (callProtocol s opts d).wp post xpost ((Fs.ask q).bind f) w :=
  wp_call hI h hasks (fun w c hw h₁ h₂ => hok w c hw (hI _ _ hw ⟨undisturbed_of_quiet hq, fun _ => h₂⟩) h₁ h₂)

theorem wp_done {a : β} (hI : (callProtocol s opts d).Stable I) (h : I w) (hp : ∀ w, I w → post a w) :
    (callProtocol s opts d).wp post xpost (.pure a) w := Protocol.wp_pure hI h hp

theorem wp_fail {e : StoreError} (hI : (callProtocol s opts d).Stable I) (h : I w) (hp : ∀ w, I w → xpost e w) :
    (callProtocol s opts d).wp post xpost (.throw e) w := fun w' h' => hp w' (hI w w' h h')

end Rules

/-! ## What the others leave -/

theorem Owns.undisturbed (h : Owns d w) (hu : Undisturbed s d w w') : Owns d w' := hu.holder d.1.account h

theorem Undecided.undisturbed (h : Undecided d w) (hu : Undisturbed s d w w') : Undecided d w' := hu.calls.trans h

theorem total_undisturbed (ho : Owns d w) (hu : Undisturbed s d w w') : w'.total d = w.total d :=
  Held.total_congr (hu.contents d.1.account ho)

theorem content_undisturbed (ho : Owns d w) (hu : Undisturbed s d w w') : w'.content d = w.content d :=
  hu.contents d.1.account ho d.1.name

theorem CacheRight.undisturbed (h : CacheRight w d.1.account) (ho : Owns d w) (hu : Undisturbed s d w w') :
    CacheRight w' d.1.account := by
  intro used hused
  rw [hu.usage d.1.account ho] at hused
  rw [show w'.spec.object.total d.1.account.id = w.spec.object.total d.1.account.id from total_undisturbed ho hu]
  exact ⟨(h used hused).1, fun hs => (h used hused).2 (fun hw => hs (hu.struck hw))⟩

theorem MayStore.undisturbed {data : GoString} (h : MayStore s d data w) (ho : Owns d w) (hu : Undisturbed s d w w') :
    MayStore s d data w' :=
  ⟨h.op, h.valid, h.undecided.undisturbed hu, (content_undisturbed ho hu).trans h.absent,
    by rw [total_undisturbed ho hu]; exact h.fits⟩

variable (s)

/-- Without a failure the only temporary file that is left over is the caller's. -/
def CleanBut (d : Party) (tmp : Path) (w : World) : Prop :=
  ¬ struck w.spec.events → ∀ p, s.home d.1.account <+: p → IsTemp (p.getLastD []) → p ≠ tmp →
    w.machine.disk.fileAt p = none

/-- A call is ready to return `r`. -/
def Settled (d : Party) (r : Outcome) (w : World) : Prop :=
  (∃ answer, w.spec.calls d = some (some answer) ∧ d.1.Answers s.quota answer r) ∨
    (Undecided d w ∧ Excuses s.quota w.spec.events d r)

variable {s}

theorem Clean.undisturbed (h : Clean s w d.1.account) (ho : Owns d w) (hu : Undisturbed s d w w') :
    Clean s w' d.1.account := fun hs p hp ht =>
  (hu.files d.1.account ho p hp).trans (h (fun hw => hs (hu.struck hw)) p hp ht)

theorem CleanBut.undisturbed {tmp : Path} (h : CleanBut s d tmp w) (ho : Owns d w) (hu : Undisturbed s d w w') :
    CleanBut s d tmp w' := fun hs p hp ht hne =>
  (hu.files d.1.account ho p hp).trans (h (fun hw => hs (hu.struck hw)) p hp ht hne)

theorem Excuses.mono {quota : ℤ} {events events' : Events} {r : Outcome} (h : Excuses quota events d r)
    (hsub : ∀ e ∈ events, e ∈ events') : Excuses quota events' d r :=
  h.imp_right (Or.imp_right (Or.imp (And.imp_left (hsub _)) (And.imp_left (hsub _))))

theorem Settled.undisturbed {r : Outcome} (h : Settled s d r w) (hu : Undisturbed s d w w') : Settled s d r w' := by
  rcases h with ⟨answer, hcall, hr⟩ | ⟨hun, hex⟩
  · exact Or.inl ⟨answer, hu.calls.trans hcall, hr⟩
  · exact Or.inr ⟨hun.undisturbed hu, hex.mono (fun e he => hu.events.subset he)⟩

/-! ## Walking the directory of an account -/

/-- The view of a walk over the directory of an account. -/
def accountView (s : FSStore) (a : Account) (kept : World → Path → Prop) (real : Path → Prop) : View World where
  kept := kept
  there := fun w p => w.machine.disk.isDirAt p = true ∧ s.home a <+: p
  real := fun q => s.home a <+: q ∧ real q
  failed := fun e w => e = .other ∧ struck w.spec.events
  limit := s.base.length + 5

theorem length_home (a : Account) : (s.home a).length = s.base.length + 1 := by
  unfold FSStore.home
  rw [List.length_append]
  rfl

theorem base_prefix_home (a : Account) : s.base <+: s.home a := List.prefix_append _ _

section Walking

variable {a : Account} {kept : World → Path → Prop} {real : Path → Prop} {I : World → Prop}

theorem file_short (hw : Consistent s w) {p : Path} (hp : (w.machine.disk.fileAt p).isSome = true) :
    p.length = s.base.length + 5 := (hw.tidy.file p hp).length

/-- What the entries of a directory of a tidy disk show. -/
theorem lists_entries {S : Type} {V : View S} {t : S} {disk : Disk} (ht : Tidy s.base disk)
    (hkept : ∀ q, V.kept t q → (disk.fileAt q).isSome = true)
    (hreal : ∀ q, s.home a <+: q → (disk.fileAt q).isSome = true → V.real q)
    (hthere : ∀ q, disk.isDirAt q = true → s.home a <+: q → V.there t q) (hlimit : V.limit = s.base.length + 5)
    {p : Path} (hp : s.home a <+: p) : V.Lists t p (disk.entries p) where
  nodup := Disk.nodup_entries ht.file_not_dir
  keeps := by
    intro q hq hpre hne
    obtain ⟨rest, rfl⟩ := hpre
    obtain ⟨x, rest, rfl⟩ := List.exists_cons_of_ne_nil (show rest ≠ [] from fun h => hne (by rw [h, List.append_nil]))
    have hfile := hkept _ hq
    by_cases hrest : rest = []
    · rw [hrest] at hfile ⊢
      exact ⟨⟨x, false⟩, Disk.mem_entries.mpr (Or.inl ⟨rfl, hfile⟩), List.prefix_refl _, fun _ => rfl, fun _ => rfl⟩
    · have hpre : p ++ [x] <+: p ++ x :: rest := ⟨rest, by rw [List.append_assoc]; rfl⟩
      have hlt : p ++ [x] ≠ p ++ x :: rest := by
        intro h
        exact hrest (List.cons.inj (List.append_cancel_left h)).2.symm
      exact ⟨⟨x, true⟩, Disk.mem_entries.mpr (Or.inr ⟨rfl, ht.dir_above hfile hpre hlt⟩), hpre,
        fun h => absurd h Bool.noConfusion, fun h => absurd h hlt⟩
  reals := by
    intro e he hd
    rcases Disk.mem_entries.mp he with ⟨-, hfile⟩ | ⟨hd', -⟩
    · exact hreal _ (hp.trans (List.prefix_append p [e.name])) hfile
    · exact absurd (hd.symm.trans hd') (by decide)
  dirs := by
    intro e he hd
    rcases Disk.mem_entries.mp he with ⟨hd', -⟩ | ⟨-, hdir⟩
    · exact absurd (hd.symm.trans hd') (by decide)
    · exact hthere _ hdir (hp.trans (List.prefix_append p [e.name]))
  short := by
    intro e he
    rw [hlimit]
    rcases Disk.mem_entries.mp he with ⟨-, hfile⟩ | ⟨-, hdir⟩
    · exact (ht.file _ hfile).length.le
    · have := ht.dir _ hdir ((base_prefix_home a).trans (hp.trans (List.prefix_append p [e.name])))
      omega

/-- The directory of an account: it is there, or nothing is in it. -/
theorem stat_home {disk : Disk} (ht : Tidy s.base disk) (a : Account) :
    (disk.stat (s.home a) = .ok ⟨true, 0⟩ ∧ disk.isDirAt (s.home a) = true) ∨
      (disk.stat (s.home a) = .error .notExist ∧ ∀ q, (disk.fileAt q).isSome = true → ¬ s.home a <+: q) := by
  have hnot : ∀ q, (disk.fileAt q).isSome = true → s.home a ≠ q := by
    intro q hq heq
    have := (ht.file q hq).length
    rw [← heq, length_home] at this
    omega
  have hnone : disk.fileAt (s.home a) = none := Option.not_isSome_iff_eq_none.mp (fun hs => hnot _ hs rfl)
  rw [show disk.stat (s.home a) = _ from stat_of_dir (m := ⟨disk, fun _ => none⟩) hnone]
  by_cases hd : disk.isDirAt (s.home a) = true
  · exact Or.inl ⟨if_pos hd, hd⟩
  · exact Or.inr ⟨if_neg hd, fun q hq hpre => hd (ht.dir_above hq hpre (hnot q hq))⟩

/-- The view of a walk fits what a caller does, while `I` holds. -/
theorem fits_account (hI : (callProtocol s opts d).Stable I)
    (hrely : ∀ w w' q, Undisturbed s d w w' → kept w' q → kept w q)
    (hstep : ∀ w c q p, Consistent s w → kept (w.after s d c q) p → kept w p)
    (hkept : ∀ w q, I w → Consistent s w → kept w q → (w.machine.disk.fileAt q).isSome = true)
    (hreal : ∀ w q, I w → Consistent s w → s.home a <+: q → (w.machine.disk.fileAt q).isSome = true → real q) :
    (accountView s a kept real).Fits (callProtocol s opts d) I where
  stable := hI
  rely := fun h => ⟨fun q hq => hrely _ _ q h.1 hq, fun p hp => ⟨h.1.dirs p hp.1, hp.2⟩⟩
  step := by
    rintro q w r w' ⟨hw, ⟨-, c, rfl, rfl⟩, -⟩
    exact ⟨fun p hp => hstep w c q p hw hp, fun p hp => ⟨isDirAt_serve hp.1, hp.2⟩⟩
  may_read := fun _ _ _ => trivial
  reads := by
    rintro w p r w' hI₁ ⟨hdir, hpre⟩ ⟨hw, ⟨-, c, rfl, rfl⟩, hw'⟩
    have hI' : I (w.after s d c (.readDir p)) := hI _ _ hI₁ ⟨undisturbed_of_quiet trivial, fun _ => hw'⟩
    refine ⟨hI', _, rfl, fun entries hentries => ?_, fun e he => ?_⟩
    · rw [readDir_ok hdir hentries]
      exact lists_entries (V := accountView s a kept real) hw'.tidy (fun q => hkept _ q hI' hw') (fun q hq hs => ⟨hq, hreal _ q hI' hw' hq hs⟩)
        (fun q hq hpre => ⟨hq, hpre⟩) rfl hpre
    · obtain ⟨hfails, rfl⟩ := readDir_error hdir he
      exact ⟨rfl, struck_after s hfails⟩

/-- Looking for the directory of an account. -/
theorem lstat_home (hI : (callProtocol s opts d).Stable I)
    (hkept : ∀ w q, I w → Consistent s w → kept w q → (w.machine.disk.fileAt q).isSome = true) (w : World)
    (r : Except StoreError (FsRequest.lstat (s.home a)).Reply) (w' : World) (h : I w)
    (hstep : (callProtocol s opts d).step (.lstat (s.home a)) w r w') :
    I w' ∧ ∃ reply, r = .ok reply ∧
      (∀ info, reply = .ok info → info.isDir = true ∧ (accountView s a kept real).there w' (s.home a)) ∧
      ∀ e, reply = .error e → (accountView s a kept real).failed e w' ∨
        (e = .notExist ∧ ∀ q, (accountView s a kept real).kept w' q → ¬ s.home a <+: q) := by
  obtain ⟨hw, ⟨-, c, rfl, rfl⟩, hw'⟩ := hstep
  have hI' : I (w.after s d c (.lstat (s.home a))) := hI _ _ h ⟨undisturbed_of_quiet trivial, fun _ => hw'⟩
  refine ⟨hI', _, rfl, ?_⟩
  rw [lstat_reply]
  cases hf : c.fails with
  | true => exact ⟨nofun, fun e he => Or.inl ⟨(Except.error.inj he).symm, struck_after s hf⟩⟩
  | false =>
    rcases stat_home hw.tidy a with ⟨hstat, hdir⟩ | ⟨hstat, hnone⟩
    · rw [if_neg Bool.false_ne_true, hstat]
      exact ⟨fun info hinfo => ⟨by cases hinfo; rfl, hdir, List.prefix_refl _⟩, nofun⟩
    · rw [if_neg Bool.false_ne_true, hstat]
      exact ⟨nofun, fun e he => Or.inr ⟨(Except.error.inj he).symm, fun q hq =>
        hnone q (hkept (w.after s d c (.lstat (s.home a))) q hI' hw' hq)⟩⟩

end Walking

/-! ## The usage of an account -/

section Usage

variable {data : GoString}

theorem owns_after (h : Owns d w) (hq : holderAfter d q w.holder = w.holder) : Owns d (w.after s d c q) := by
  show holderAfter d q w.holder d.1.account.id = some d
  rw [hq]
  exact h

theorem content_after (hw : Consistent s w) (hw' : Consistent s (w.after s d c q))
    (hfiles : ∀ p, s.home d.1.account <+: p → ¬ Touches c q p) : (w.after s d c q).content d = w.content d := by
  unfold World.content
  rw [hw.object, hw'.object]
  exact content_congr hw.tidy hw'.tidy (fun p hp => fileAt_serve (hfiles p hp)) d.1.name

variable (s)

/-- A put has found its name free. -/
structure Vacant (d : Party) (data : GoString) (w : World) : Prop where
  op : d.1 = .put d.1.account d.1.name data
  valid : validateName d.1.name = .ok ()
  owns : Owns d w
  cache : CacheRight w d.1.account
  clean : Clean s w d.1.account
  absent : w.content d = none
  undecided : Undecided d w

/-- There is no room for the object of a put. -/
def Full (d : Party) (data : GoString) (w : World) : Prop :=
  0 < s.quota ∧ s.quota < (w.total d + data.length : ℕ)

/-- A put knows how much its account has used. -/
structure Measured (d : Party) (data : GoString) (used : ℕ) (w : World) : Prop where
  op : d.1 = .put d.1.account d.1.name data
  valid : validateName d.1.name = .ok ()
  owns : Owns d w
  cache : CacheRight w d.1.account
  clean : Clean s w d.1.account
  absent : w.content d = none
  le : w.total d ≤ used
  exact : ¬ struck w.spec.events → used = w.total d
  full : Full s d data w → w.spec.calls d = some (some .refused)
  room : ¬ Full s d data w → Undecided d w

/-- A call that holds its lock is ready to return `r`. -/
structure Returning (d : Party) (r : Outcome) (w : World) : Prop where
  owns : Owns d w
  cache : CacheRight w d.1.account
  clean : Clean s w d.1.account
  settled : Settled s d r w

variable {s}

theorem Vacant.undisturbed (h : Vacant s d data w) (hu : Undisturbed s d w w') : Vacant s d data w' :=
  ⟨h.op, h.valid, h.owns.undisturbed hu, h.cache.undisturbed h.owns hu, h.clean.undisturbed h.owns hu,
    (content_undisturbed h.owns hu).trans h.absent, h.undecided.undisturbed hu⟩

theorem Measured.undisturbed {used : ℕ} (h : Measured s d data used w) (hu : Undisturbed s d w w') :
    Measured s d data used w' := by
  have htotal := total_undisturbed h.owns hu
  have hfull : Full s d data w' ↔ Full s d data w := by
    unfold Full
    rw [htotal]
  refine ⟨h.op, h.valid, h.owns.undisturbed hu, h.cache.undisturbed h.owns hu, h.clean.undisturbed h.owns hu,
    (content_undisturbed h.owns hu).trans h.absent, htotal.le.trans h.le, fun hs => ?_, fun hf => ?_, fun hf => ?_⟩
  · rw [htotal]
    exact h.exact (fun hw => hs (hu.struck hw))
  · exact hu.calls.trans (h.full (hfull.mp hf))
  · exact (h.room (fun hw => hf (hfull.mpr hw))).undisturbed hu

theorem Returning.undisturbed {r : Outcome} (h : Returning s d r w) (hu : Undisturbed s d w w') : Returning s d r w' :=
  ⟨h.owns.undisturbed hu, h.cache.undisturbed h.owns hu, h.clean.undisturbed h.owns hu, h.settled.undisturbed hu⟩

theorem stable_vacant : (callProtocol s opts d).Stable (Vacant s d data) := fun _ _ h hu => h.undisturbed hu.1

theorem stable_measured (used : ℕ) : (callProtocol s opts d).Stable (Measured s d data used) := fun _ _ h hu => h.undisturbed hu.1

theorem stable_returning (r : Outcome) : (callProtocol s opts d).Stable (Returning s d r) := fun _ _ h hu => h.undisturbed hu.1

/-- A put whose usage has just been found is decided if there is no room. -/
theorem Vacant.measured {used : ℕ} (h : Vacant s d data w) (hw : Consistent s w) (hw' : Consistent s (w.after s d c q))
    (hq : Asks s d q w) (hdec : Deciding s d c q w ↔ Full s d data w) (hfiles : ∀ p, ¬ Touches c q p)
    (hholder : holderAfter d q w.holder = w.holder) (hcache : CacheRight (w.after s d c q) d.1.account)
    (hle : w.total d ≤ used) (hexact : ¬ struck w.spec.events → used = w.total d) :
    Measured s d data used (w.after s d c q) := by
  have htotal : (w.after s d c q).total d = w.total d := total_after hw hq (fun p _ => hfiles p)
  have hfull : Full s d data (w.after s d c q) ↔ Full s d data w := by
    unfold Full
    rw [htotal]
  refine ⟨h.op, h.valid, owns_after h.owns hholder, hcache, clean_after h.clean (fun p _ => hfiles p),
    (content_after hw hw' (fun p _ => hfiles p)).trans h.absent, htotal.le.trans hle, fun hs => ?_, fun hf => ?_, fun hf => ?_⟩
  · rw [htotal]
    refine hexact (fun hw => hs ?_)
    unfold struck
    rw [events_after]
    exact List.mem_append_left _ hw
  · have hf := hfull.mp hf
    rw [calls_after_deciding s (hdec.mpr hf), Function.update_self]
    have happly : (d.1.apply s.quota w.spec.object).1 = .refused := by
      rw [h.op]
      exact congrArg Prod.fst (apply_put_refused (show w.spec.object.content d.1.account.id d.1.name = none from h.absent) hf)
    rw [happly]
  · unfold Undecided
    rw [calls_after s (fun hd => hf (hfull.mpr (hdec.mp hd)))]
    exact h.undecided

/-! ### Its walk -/

theorem getLastD_append_cons (base : Path) (x : GoString) {rest : Path} (h : rest ≠ []) :
    (base ++ x :: rest).getLastD [] = rest.getLastD [] := by
  rw [← List.dropLast_concat_getLast h, ← List.cons_append, ← List.append_assoc, List.getLastD_concat,
    List.getLastD_concat]

/-- The size of a file. -/
def sizeIn (files : Path → Option GoString) (p : Path) : ℕ := ((files p).map List.length).getD 0

variable (s)

/-- While an account is walked for its usage, its files are `files`. -/
structure Counting (d : Party) (data : GoString) (files : Path → Option GoString) (w : World) : Prop where
  consistent : Consistent s w
  vacant : Vacant s d data w
  files : ∀ p, s.home d.1.account <+: p → w.machine.disk.fileAt p = files p

/-- The files that are counted. -/
def Counted (d : Party) (files : Path → Option GoString) (p : Path) : Prop :=
  s.home d.1.account <+: p ∧ (files p).isSome = true

/-- How a total comes from the files visited. -/
def Totals (d : Party) (files : Path → Option GoString) (total : ℕ) (visited : List Path) : Prop :=
  visited.Nodup ∧ total = (visited.map (sizeIn files)).sum ∧ ∀ p ∈ visited, Counted s d files p

/-- What stops the walk: a failure. -/
def Failed (d : Party) (data : GoString) (files : Path → Option GoString) (v : Visit ℕ) (w : World) : Prop :=
  (∃ total, v = .fail (.fs .other) total) ∧ struck w.spec.events ∧ Counting s d data files w

variable {s} {files : Path → Option GoString}

theorem stable_counting : (callProtocol s opts d).Stable (Counting s d data files) := fun _ _ h hu =>
  ⟨hu.2 h.consistent, h.vacant.undisturbed hu.1, fun p hp => (hu.1.files d.1.account h.vacant.owns p hp).trans (h.files p hp)⟩

/-- What the function of `usage` does at a file. -/
def usageFile (p : Path) (total : ℕ) : Fs (Visit ℕ) :=
  (Fs.ask (.info p)).bind (fun r => match r with
    | .error e => pure (.fail (.fs e) total)
    | .ok info => pure (.next (total + info.size)))

theorem visits_usage {X : StoreError → World → Prop} :
    Visits (callProtocol s opts d) (accountView s d.1.account (fun _ => Counted s d files) (fun p => (files p).isSome = true))
      (Counting s d data files) (Totals s d files) (Failed s d data files) X FSStore.usageFn where
  stop := fun v w w' h hu => ⟨h.1, hu.1.struck h.2.1, stable_counting _ _ h.2.2 hu⟩
  stopped := by
    rintro total w ⟨⟨_, h⟩, -⟩
    cases h
  dir := by
    intro total p e w he hI
    have hfn : FSStore.usageFn total p e none = pure (.next total) := by
      unfold FSStore.usageFn
      simp only [he, if_true]
    rw [hfn]
    exact wp_done stable_counting hI (fun w' hI' => Or.inl ⟨rfl, hI'⟩)
  file := by
    intro total visited p e w he _ hreal hnew hJ hI
    have hfn : FSStore.usageFn total p e none = usageFile p total := by
      unfold FSStore.usageFn
      simp only [he, Bool.false_eq_true, if_false]
      rfl
    rw [hfn]
    unfold usageFile
    obtain ⟨content, hcontent⟩ := Option.isSome_iff_exists.mp hreal.2
    refine wp_quiet trivial stable_counting hI (fun _ _ => trivial) (fun w c hI₁ hI₂ _ _ => ?_)
    have hfile : w.machine.disk.fileAt p = some content := (hI₁.files p hreal.1).trans hcontent
    rw [info_reply, stat_of_file hfile]
    cases hf : c.fails with
    | true => exact fun w' hu => Or.inr ⟨⟨total, rfl⟩, hu.1.struck (struck_after s hf), stable_counting _ _ hI₂ hu⟩
    | false =>
      refine wp_done stable_counting hI₂ (fun w' hI' => Or.inl ⟨_, rfl, ⟨?_, ?_, ?_⟩, hI'⟩)
      · exact List.nodup_append.mpr ⟨hJ.1, List.nodup_singleton p, fun a ha b hb hab =>
          hnew (List.mem_singleton.mp hb ▸ hab ▸ ha)⟩
      · rw [List.map_append, List.sum_append, ← hJ.2.1]
        show total + content.length = total + (sizeIn files p + 0)
        unfold sizeIn
        rw [hcontent]
        rfl
      · intro q hq
        rcases List.mem_append.mp hq with hq | hq
        · exact hJ.2.2 q hq
        · exact List.mem_singleton.mp hq ▸ hreal
  failed := by
    rintro total p e err w ⟨rfl, hs⟩ hI
    exact fun w' hu => ⟨⟨total, rfl⟩, hu.1.struck hs, stable_counting _ _ hI hu⟩

/-- A total of all files of an account is no less than its objects, and no more if nothing is left over. -/
theorem total_of_totals (hI : Counting s d data files w) {total : ℕ} {visited : List Path}
    (hJ : Totals s d files total visited) (hall : ∀ p, Counted s d files p → p ∈ visited) :
    w.total d ≤ total ∧ (¬ struck w.spec.events → total = w.total d) := by
  have hw := hI.consistent
  have hplace : Function.Injective (s.place d.1.account) := fun _ _ h => (objectPath_injective s.base h).2
  have hin : ∀ name data, w.spec.object.content d.1.account.id name = some data →
      s.place d.1.account name ∈ visited ∧ sizeIn files (s.place d.1.account name) = data.length := by
    intro name content hc
    rw [hw.object, Held.content_eq_some, mem_heldOn hw.tidy] at hc
    have hfile : files (s.place d.1.account name) = some content :=
      (hI.files _ (s.home_prefix_place _ name)).symm.trans hc.2.2
    refine ⟨hall _ ⟨s.home_prefix_place _ name, by rw [hfile]; rfl⟩, ?_⟩
    unfold sizeIn
    rw [hfile]
    rfl
  refine ⟨?_, fun hs => ?_⟩
  · rw [hJ.2.1]
    exact Held.total_le_sum hplace hin
  · rw [hJ.2.1]
    refine (Held.total_eq_sum hplace hJ.1 hin (fun p hp => ?_)).symm
    obtain ⟨hpre, hsome⟩ := hJ.2.2 p hp
    have hfile : (w.machine.disk.fileAt p).isSome = true := by rwa [hI.files p hpre]
    obtain ⟨content, hcontent⟩ := Option.isSome_iff_exists.mp hfile
    obtain ⟨account, rest, ha, rfl, hlen, ⟨name, hn, rfl⟩ | htemp⟩ := hw.tidy.file p hfile
    · have hacc : account = d.1.account.id := by
        obtain ⟨x, hx⟩ := hpre
        unfold FSStore.home at hx
        rw [List.append_assoc] at hx
        exact (List.cons.inj (List.append_cancel_left hx)).1.symm
      refine ⟨name, content, ?_, by rw [hacc]; rfl⟩
      rw [hw.object, Held.content_eq_some, mem_heldOn hw.tidy]
      exact ⟨d.1.account.valid, hn, hacc ▸ hcontent⟩
    · have hne : rest ≠ [] := fun h => absurd hlen (by rw [h]; decide)
      rw [← getLastD_append_cons s.base account hne] at htemp
      exact absurd (hI.vacant.clean hs _ hpre htemp) (Option.isSome_iff_ne_none.mp hfile)

/-- The walk of `usage`: a total of everything in the directory of the account, or a failure. -/
theorem wp_walkUsage {X : StoreError → World → Prop} (h : Counting s d data files w) :
    (callProtocol s opts d).wp (fun v w' => Counting s d data files w' ∧
      ((∃ total visited, (v = .next total ∨ v = .skipAll total) ∧ Totals s d files total visited ∧
        ∀ p, Counted s d files p → p ∈ visited) ∨ ((∃ total, v = .fail (.fs .other) total) ∧ struck w'.spec.events))) X
      (WalkDir FSStore.usageFn s.depth (s.home d.1.account) 0) w := by
  have hkept : ∀ w q, Counting s d data files w → Counted s d files q → (w.machine.disk.fileAt q).isSome = true :=
    fun w q hI hq => by rw [hI.files q hq.1]; exact hq.2
  have hfits : (accountView s d.1.account (fun _ => Counted s d files) (fun p => (files p).isSome = true)).Fits
      (callProtocol s opts d) (Counting s d data files) :=
    fits_account stable_counting (fun _ _ _ _ h => h) (fun _ _ _ _ _ h => h) (fun w q hI _ => hkept w q hI)
      (fun w q hI _ hq hs => by rwa [hI.files q hq] at hs)
  have hlength := length_home (s := s) d.1.account
  have hdeep := s.deep
  have hlimit : s.base.length + 5 < (s.home d.1.account).length + s.depth := by omega
  have hshort : (s.home d.1.account).length ≤ s.base.length + 5 := by omega
  refine Protocol.wp_mono (wp_WalkDir hfits visits_usage hlimit hshort
    ⟨List.nodup_nil, rfl, fun p hp => absurd hp List.not_mem_nil⟩ h (fun _ _ => trivial)
    (lstat_home stable_counting (fun w q hI _ => hkept w q hI)) rfl) (fun v w₁ h₁ => ?_) (fun _ _ hx => hx)
  rcases h₁ with (⟨total, new, rfl, hJ, hI, -, hcover⟩ | hstop) | ⟨rfl, hI, hnone⟩
  · refine ⟨hI, Or.inl ⟨total, new, Or.inl rfl, hJ, fun p hp => hcover p hp ⟨hp.1, fun heq => ?_⟩⟩⟩
    have := file_short hI.consistent (hkept _ p hI hp)
    rw [← heq] at this
    omega
  · exact ⟨hstop.2.2, Or.inr ⟨hstop.1, hstop.2.1⟩⟩
  · exact ⟨hI, Or.inl ⟨0, [], Or.inr rfl, ⟨List.nodup_nil, rfl, fun p hp => absurd hp List.not_mem_nil⟩,
      fun p hp => absurd hp.1 (hnone p hp)⟩⟩

/-- The total that was found is cached. -/
theorem wp_storeUsage {X : StoreError → World → Prop} {total : ℕ} (h : Counting s d data files w) (hle : w.total d ≤ total)
    (hexact : ¬ struck w.spec.events → total = w.total d) :
    (callProtocol s opts d).wp (fun used => Measured s d data used) X
      ((Fs.ask (.storeUsage d.1.account.id total)).bind (fun _ => pure total)) w := by
  refine wp_call (I := fun w => Counting s d data files w ∧ w.total d ≤ total ∧ (¬ struck w.spec.events → total = w.total d))
    (fun w₁ w₂ h₁ hu => ?_) ⟨h, hle, hexact⟩ (fun w₁ h₁ => ?_) (fun w₁ c h₁ hw hw' => ?_)
  · have htotal := total_undisturbed h₁.1.vacant.owns hu.1
    refine ⟨stable_counting _ _ h₁.1 hu, htotal.le.trans h₁.2.1, fun hs => ?_⟩
    rw [htotal]
    exact h₁.2.2 (fun hw => hs (hu.1.struck hw))
  · exact ⟨rfl, h₁.1.vacant.owns, h₁.1.vacant.absent, h₁.1.vacant.undecided, h₁.2.1, h₁.2.2⟩
  · obtain ⟨hI, hle, hexact⟩ := h₁
    have hasks : Asks s d (.storeUsage d.1.account.id total) w₁ :=
      ⟨rfl, hI.vacant.owns, hI.vacant.absent, hI.vacant.undecided, hle, hexact⟩
    have hdec : Deciding s d c (.storeUsage d.1.account.id total) w₁ ↔ Full s d data w₁ := by
      unfold Deciding
      rw [hI.vacant.op]
      exact decide_eq_true_iff
    have htotal : (w₁.after s d c (.storeUsage d.1.account.id total)).total d = w₁.total d :=
      total_after hw hasks (fun _ _ h => h)
    have hcache : CacheRight (w₁.after s d c (.storeUsage d.1.account.id total)) d.1.account := by
      intro used hused
      rw [show (w₁.after s d c (.storeUsage d.1.account.id total)).machine.usages d.1.account.id = some total from
        Function.update_self _ _ _] at hused
      cases hused
      refine ⟨htotal.le.trans hle, fun hs => (hexact (fun hw => hs ?_)).trans htotal.symm⟩
      unfold struck
      rw [events_after]
      exact List.mem_append_left _ hw
    exact wp_done (stable_measured total) (hI.vacant.measured hw hw' hasks hdec (fun _ h => h) rfl hcache hle hexact)
      (fun _ h => h)

/-- `usage`, asked by a put. -/
theorem wp_usage (h : Vacant s d data w) : (callProtocol s opts d).wp (fun used => Measured s d data used)
    (fun e => Returning s d (.error e)) (s.usage d.1.account.id) w := by
  unfold FSStore.usage
  refine wp_call stable_vacant h (fun w hw => ⟨rfl, hw.owns, hw.cache, hw.absent, hw.undecided⟩) (fun w c hv hw hw' => ?_)
  have hasks : Asks s d (.loadUsage d.1.account.id) w := ⟨rfl, hv.owns, hv.cache, hv.absent, hv.undecided⟩
  have hcache := cacheRight_after hw hasks (c := c) hv.cache (fun _ _ h => h) (fun h => h)
  cases hu : (serve c (.loadUsage d.1.account.id) w.machine).1 with
  | some used =>
    have hdec : Deciding s d c (.loadUsage d.1.account.id) w ↔ Full s d data w := by
      unfold Deciding
      rw [hv.op]
      rw [hv.op] at hu
      rw [hu]
      exact decide_eq_true_iff
    exact wp_done (stable_measured used) (hv.measured hw hw' hasks hdec (fun _ h => h) rfl hcache (hv.cache used hu).1
      (hv.cache used hu).2) (fun _ h => h)
  | none =>
    have hnot : ¬ Deciding s d c (.loadUsage d.1.account.id) w := by
      unfold Deciding
      rw [hv.op]
      rw [hv.op] at hu
      rw [hu]
      exact Bool.false_ne_true
    have hv' : Vacant s d data (w.after s d c (.loadUsage d.1.account.id)) :=
      hv.undisturbed (undisturbed_quiet s hnot (fun _ h => h) (fun _ h => h) rfl)
    simp only [s.path_home, Prog.pure_def, Prog.bind_def, Prog.pure_bind]
    refine Protocol.wp_bind (Protocol.wp_mono (wp_walkUsage ⟨hw', hv', fun _ _ => rfl⟩) (fun v w₁ h₁ => ?_) (fun _ _ hx => hx))
    obtain ⟨hI, ⟨total, visited, hv₁, hJ, hall⟩ | ⟨⟨total, rfl⟩, hs⟩⟩ := h₁
    · obtain ⟨hle, hexact⟩ := total_of_totals hI hJ hall
      rcases hv₁ with rfl | rfl
      · exact wp_storeUsage hI hle hexact
      · exact wp_storeUsage hI hle hexact
    · refine wp_fail (I := fun w => Vacant s d data w ∧ struck w.spec.events)
        (fun _ _ h hu => ⟨h.1.undisturbed hu.1, hu.1.struck h.2⟩) ⟨hI.vacant, hs⟩ (fun w₂ h₂ => ?_)
      exact ⟨h₂.1.owns, h₂.1.cache, h₂.1.clean,
        Or.inr ⟨h₂.1.undecided, Or.inr (Or.inr (Or.inr ⟨h₂.2, Or.inl ⟨_, _, rfl⟩⟩))⟩⟩

variable (s)

/-- The object of a put may be written. -/
structure Storable (d : Party) (data : GoString) (w : World) : Prop where
  owns : Owns d w
  cache : CacheRight w d.1.account
  clean : Clean s w d.1.account
  may : MayStore s d data w

variable {s}

theorem stable_storable : (callProtocol s opts d).Stable (Storable s d data) := fun _ _ h hu =>
  ⟨h.owns.undisturbed hu.1, h.cache.undisturbed h.owns hu.1, h.clean.undisturbed h.owns hu.1, h.may.undisturbed h.owns hu.1⟩

/-- The quota check of a put: it may store, or is refused. -/
theorem wp_withinQuota (h : Vacant s d data w) : (callProtocol s opts d).wp (fun _ => Storable s d data)
    (fun e => Returning s d (.error e)) (s.withinQuota d.1.account.id data) w := by
  unfold FSStore.withinQuota
  by_cases hpos : 0 < s.quota
  · simp only [hpos, if_true]
    refine Protocol.wp_bind (Protocol.wp_mono (wp_usage h) (fun used w₁ h₁ => ?_) (fun _ _ hx => hx))
    by_cases hover : (used : ℤ) + data.length > s.quota
    · simp only [hover, if_true]
      refine wp_fail (stable_measured used) h₁ (fun w₂ h₂ => ⟨h₂.owns, h₂.cache, h₂.clean, ?_⟩)
      by_cases hfull : Full s d data w₂
      · refine Or.inl ⟨.refused, h₂.full hfull, ?_⟩
        rw [h₂.op]
        exact ⟨used, rfl⟩
      · -- the usage was found too large, which takes a failure
        refine Or.inr ⟨h₂.room hfull, Or.inr (Or.inr (Or.inr ⟨?_, Or.inr ⟨used, rfl⟩⟩))⟩
        by_contra hs
        refine hfull ⟨hpos, ?_⟩
        rw [← h₂.exact hs]
        push_cast
        exact hover
    · simp only [hover, if_false]
      refine wp_done (stable_measured used) h₁ (fun w₂ h₂ => ?_)
      have hroom : ¬ Full s d data w₂ := by
        rintro ⟨-, hlt⟩
        have hle := h₂.le
        push_cast at hlt
        omega
      exact ⟨h₂.owns, h₂.cache, h₂.clean, h₂.op, h₂.valid, h₂.room hroom, h₂.absent, hroom⟩
  · simp only [hpos, if_false]
    exact wp_done stable_vacant h (fun w₁ h₁ => ⟨h₁.owns, h₁.cache, h₁.clean, h₁.op, h₁.valid, h₁.undecided, h₁.absent,
      fun hf => hpos hf.1⟩)

end Usage

end Calls

end Server

end EasyDocket
