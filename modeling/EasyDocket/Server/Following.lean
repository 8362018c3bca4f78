import EasyDocket.Server.Refining

/-!
# Listings are complete

On a store that nobody else uses, following a listing ends and yields exactly the objects with the prefix, and so does
the client.  Among other callers a listing has every object that was there throughout, unless a file that its walk had
read an entry of was gone when it was asked for its size: then the listing ends there, and nothing reports it.
-/

namespace EasyDocket

namespace Server

open FSStore (Object)

/-! ## A store that nobody else uses -/

section Quiet

/-- Every call succeeds, and nobody interferes. -/
def undisturbed : Protocol FsRequest FsRequest.Reply StoreError Machine where
  step := fun q m r m' => r = .ok (serve .smooth q m).1 ∧ m' = (serve .smooth q m).2
  rely := fun m m' => m = m'
  rely_refl := fun _ => rfl
  rely_trans := fun h h' => h.trans h'
  pre := fun _ _ => True

/-- How requests are served then. -/
def smoothly (q : FsRequest) (m : Machine) : Except StoreError q.Reply × Machine := (.ok (serve .smooth q m).1, (serve .smooth q m).2)

variable (s : FSStore) (a : Account) (m : Machine)

/-- The view of a walk over the directory of an account that nobody changes. -/
def stillView : View Machine where
  kept := fun _ q => (m.disk.fileAt q).isSome = true
  there := fun _ p => m.disk.isDirAt p = true ∧ s.home a <+: p
  real := fun q => s.home a <+: q ∧ (m.disk.fileAt q).isSome = true
  failed := fun _ _ => False
  limit := s.base.length + 5

/-- The size of a file. -/
def SizeOf (p : Path) (size : ℕ) : Prop := ∃ content, m.disk.fileAt p = some content ∧ size = content.length

/-- What a listing has to be: every object with the prefix once, in the order of the names, and nothing else. -/
structure Exactly (held : Held) (pre : GoString) (objects : List Object) : Prop where
  sorted : objects.Pairwise (fun x y => x.name < y.name)
  mem : ∀ o, o ∈ objects ↔ pre <+: o.name ∧ ∃ data, held.content a.id o.name = some data ∧ o.size = data.length

/-- The objects with a prefix. -/
def matching (held : Held) (pre : GoString) : List Object :=
  (held.rows.filter (fun o => o.account = a.id ∧ pre <+: o.name)).map (fun o => ⟨o.name, o.data.length⟩)

variable {s a m} {held : Held} {pre : GoString} {objects objects' : List Object}

theorem exactly_matching : Exactly a held pre (matching a held pre) where
  sorted := by
    refine List.pairwise_map.mpr ((held.sorted.filter _).imp_of_mem (fun {x y} hx hy hlt => ?_))
    have hax : x.account = a.id := (of_decide_eq_true (List.mem_filter.mp hx).2).1
    have hay : y.account = a.id := (of_decide_eq_true (List.mem_filter.mp hy).2).1
    rcases Prod.Lex.toLex_lt_toLex.mp hlt with h | ⟨-, h⟩
    · rw [show (x.account, x.name).1 = x.account from rfl, hax, show (y.account, y.name).1 = y.account from rfl, hay] at h
      exact absurd h (lt_irrefl _)
    · exact h
  mem := by
    intro o
    unfold matching
    rw [List.mem_map]
    constructor
    · rintro ⟨x, hx, rfl⟩
      obtain ⟨hrow, hcond⟩ := List.mem_filter.mp hx
      obtain ⟨hax, hpre⟩ := of_decide_eq_true hcond
      exact ⟨hpre, x.data, Held.content_eq_some.mpr (hax ▸ hrow), rfl⟩
    · rintro ⟨hpre, data, hc, hsize⟩
      refine ⟨⟨a.id, o.name, data⟩, List.mem_filter.mpr ⟨Held.content_eq_some.mp hc, decide_eq_true ⟨rfl, hpre⟩⟩, ?_⟩
      cases o
      cases hsize
      rfl

theorem Exactly.unique (h : Exactly a held pre objects) (h' : Exactly a held pre objects') : objects = objects' :=
  Table.eq_of_mem_iff h.sorted h'.sorted (fun o => (h.mem o).trans (h'.mem o).symm)

/-- Nobody interferes with a walk. -/
theorem reads_still (ht : Tidy s.base m.disk) :
    Reads undisturbed (stillView s a m) (fun m' => m' = m) (fun _ _ => False) s a (SizeOf m) where
  fits :=
    { stable := fun _ _ h h' => h' ▸ h
      rely := fun _ => ⟨fun _ h => h, fun _ h => h⟩
      step := fun _ => ⟨fun _ h => h, fun _ h => h⟩
      may_read := fun _ _ _ => trivial
      reads := by
        rintro _ p r m' rfl ⟨hdir, hpre⟩ ⟨rfl, rfl⟩
        refine ⟨rfl, _, rfl, fun entries hentries => ?_, fun e he => ?_⟩
        · rw [readDir_ok hdir hentries]
          exact lists_entries (V := stillView s a m') ht (fun _ h => h) (fun _ hq h => ⟨hq, h⟩) (fun _ h hq => ⟨h, hq⟩) rfl hpre
        · obtain ⟨hfails, -⟩ := readDir_error hdir he
          cases hfails }
  real := fun p hp => ⟨hp.1, ht.file p hp.2⟩
  limit := rfl
  lasts := fun _ _ _ h => h.elim
  keeps := fun _ _ _ _ _ _ h => h
  unread := fun _ _ h => h.elim
  may := fun _ _ => ⟨trivial, trivial, fun _ => trivial⟩
  alive := by
    rintro _ r m' rfl ⟨rfl, rfl⟩
    exact ⟨rfl, false, rfl, nofun⟩
  info := by
    rintro p _ r m' rfl ⟨-, hfile⟩ ⟨rfl, rfl⟩
    obtain ⟨content, hcontent⟩ := Option.isSome_iff_exists.mp hfile
    refine ⟨rfl, _, rfl, fun i hi => ?_, fun e he => ?_⟩
    · rw [info_reply, stat_of_file hcontent] at hi
      cases hi
      exact ⟨content, hcontent, rfl⟩
    · rw [info_reply, stat_of_file hcontent] at he
      cases he
  stat := by
    rintro _ r m' rfl ⟨rfl, rfl⟩
    refine ⟨rfl, _, rfl, ?_⟩
    rw [lstat_reply, if_neg (show ¬ Choice.smooth.fails = true from Bool.false_ne_true)]
    rcases stat_home (s := s) ht a with ⟨hstat, hdir⟩ | ⟨hstat, hnone⟩
    · rw [hstat]
      exact ⟨fun i hi => ⟨by cases hi; rfl, hdir, List.prefix_refl _⟩, nofun⟩
    · rw [hstat]
      exact ⟨nofun, fun e he => Or.inr ⟨(Except.error.inj he).symm, fun q hq => hnone q hq⟩⟩

/-- What is gathered on a tidy disk that nobody changes is what is there. -/
theorem Gathered.exactly (ht : Tidy s.base m.disk)
    (h : Gathered s a (SizeOf m) pre ((stillView s a m).kept m) (fun _ => True) objects) :
    Exactly a (heldOn s.base m.disk) pre objects := by
  have hcontent : ∀ {name : GoString} {data : GoString}, (heldOn s.base m.disk).content a.id name = some data ↔
      validateName name = .ok () ∧ m.disk.fileAt (s.place a name) = some data := by
    intro name data
    rw [Held.content_eq_some, mem_heldOn ht]
    exact ⟨fun hm => hm.2, fun hm => ⟨a.valid, hm⟩⟩
  refine ⟨h.sorted, fun o => ⟨fun ho => ?_, ?_⟩⟩
  · obtain ⟨hn, hpre, data, hdata, hsize⟩ := h.listable o ho
    exact ⟨hpre, data, hcontent.mpr ⟨hn, hdata⟩, hsize⟩
  · rintro ⟨hpre, data, hc, hsize⟩
    obtain ⟨hn, hdata⟩ := hcontent.mp hc
    have hkept : (stillView s a m).kept m (s.place a o.name) := by
      show (m.disk.fileAt (s.place a o.name)).isSome = true
      rw [hdata]
      rfl
    obtain ⟨o', ho', hname⟩ := List.mem_map.mp (h.covers o.name hn hpre trivial hkept)
    obtain ⟨-, -, data', hdata', hsize'⟩ := h.listable o' ho'
    rw [hname, hdata] at hdata'
    have hsame : o' = o := by
      cases o
      cases o'
      cases hdata'
      cases hsize
      cases hsize'
      cases hname
      rfl
    exact hsame ▸ ho'

/-- There are no more objects than files. -/
theorem Gathered.length_le {upto : GoString → Prop}
    (h : Gathered s a (SizeOf m) pre ((stillView s a m).kept m) upto objects) : objects.length ≤ m.disk.files.rows.length := by
  have hnodup : (objects.map (fun o => s.place a o.name)).Nodup :=
    List.pairwise_map.mpr (h.sorted.imp (fun hlt heq => absurd (place_injective a heq) hlt.ne))
  have hsub : objects.map (fun o => s.place a o.name) ⊆ m.disk.files.rows.map File.path := by
    intro p hp
    obtain ⟨o, ho, rfl⟩ := List.mem_map.mp hp
    obtain ⟨-, -, data, hdata, -⟩ := h.listable o ho
    exact List.mem_map.mpr ⟨_, Disk.fileAt_eq_some.mp hdata, rfl⟩
  have hle := (hnodup.subperm hsub).length_le
  rwa [List.length_map, List.length_map] at hle

/-- A run that nobody interferes with returns what the rules say. -/
theorem run_smoothly {α : Type} {p : Fs α} {post : α → Prop}
    (h : undisturbed.wp (fun x m' => m' = m ∧ post x) (fun _ _ => False) p m) :
    ∃ x, p.run smoothly m = (.ok x, m) ∧ post x := by
  obtain ⟨hok, herror⟩ := Protocol.wp_run (P := undisturbed) (H := smoothly) (fun _ _ => ⟨rfl, rfl⟩) h
  cases hr : (p.run smoothly m).1 with
  | error e => exact (herror e hr).elim
  | ok x =>
    obtain ⟨hm, hpost⟩ := hok x hr
    exact ⟨x, Prod.ext hr hm, hpost⟩

/-- On a store that nobody else uses following ends, and so does the client, with exactly the objects with the prefix. -/
theorem run_listing (opts : Options) (ht : Tidy s.base m.disk) (hpre : validatePrefix pre = .ok ()) {pages : ℕ}
    (hpages : m.disk.files.rows.length < pages) :
    (∀ limit, (program s opts (.follow a pre limit pages)).run smoothly m =
      (.ok (.ok (.listed (matching a (heldOn s.base m.disk) pre))), m)) ∧
    (program s opts (.fetch a pre pages)).run smoothly m =
      (.ok (.ok (.listed (matching a (heldOn s.base m.disk) pre))), m) := by
  have hR := reads_still (a := a) ht
  have hlist : ∀ limit cursor m', m' = m → undisturbed.wp (Paged (stillView s a m) (fun m' => m' = m) (fun _ _ => False) s a
      (SizeOf m) pre cursor) (fun _ _ => False) (s.List a.id pre cursor limit) m' := fun limit cursor m' h =>
    wp_List hR (fun _ _ _ _ hf _ => hf) (fun fault _ hv _ => absurd (hpre.symm.trans hv) nofun) h limit
  have hend : ∀ cursor objects m', Following (stillView s a m) (fun m' => m' = m) (fun _ _ => False) s a (SizeOf m) pre
      pages 0 cursor objects m' → False := by
    rintro cursor objects m' ⟨rfl, ⟨hG, hlen⟩ | hgone⟩
    · have := hG.length_le
      omega
    · exact hgone
  have hexact : ∀ objects m', Followed (stillView s a m) (fun m' => m' = m) (fun _ _ => False) s a (SizeOf m) pre
      (fun _ => True) objects m' → m' = m ∧ objects = matching a (heldOn s.base m.disk) pre := by
    rintro objects m' ⟨rfl, hG | hgone⟩
    · exact ⟨rfl, (hG.exactly ht).unique exactly_matching⟩
    · exact hgone.elim
  have hreturn : ∀ {p : Fs Result}, undisturbed.wp (fun r m' => m' = m ∧ r = .listed (matching a (heldOn s.base m.disk) pre))
      (fun _ _ => False) p m →
      (Fs.attempt p).run smoothly m = (.ok (.ok (.listed (matching a (heldOn s.base m.disk) pre))), m) := by
    intro p hp
    have hattempt : undisturbed.wp (fun r m' => m' = m ∧ r = .ok (.listed (matching a (heldOn s.base m.disk) pre)))
        (fun _ _ => False) (Fs.attempt p) m := by
      refine wp_attempt (fun r m₁ m₂ h h' => h' ▸ h) (Protocol.wp_mono hp (fun r m' h => ⟨h.1, congrArg Except.ok h.2⟩)
        (fun _ _ h => h.elim))
    obtain ⟨r, hrun, rfl⟩ := run_smoothly hattempt
    exact hrun
  refine ⟨fun limit => hreturn (Protocol.wp_bind (Protocol.wp_mono (wp_followPages hR (hlist limit) hend pages [] [] m
    (following_start pages rfl)) (fun objects m' h => ?_) (fun _ _ h => h))),
    hreturn (Protocol.wp_bind (Protocol.wp_mono (wp_fetchPages hR opts (fun _ _ _ h _ => h) (hlist 1000) hend pages [] [] m
    (following_start pages rfl)) (fun r m' h => ?_) (fun _ _ h => h)))⟩
  · obtain ⟨rfl, rfl⟩ := hexact objects m' h
    exact fun m'' h'' => ⟨h''.symm, rfl⟩
  · cases r with
    | ok objects =>
      obtain ⟨rfl, rfl⟩ := hexact objects m' h
      exact fun m'' h'' => ⟨h''.symm, rfl⟩
    | error status =>
      obtain ⟨-, hfalse⟩ := h
      exact hfalse.elim

end Quiet

/-! ## A store that others use -/

section Shared

variable {s : FSStore} {opts : Options}

/-- A file that a walk has read the entry of is still there when it is asked for its size. -/
def sizeable (_ : Party) (q : FsRequest) (w _ : World) : Prop := ∀ p, q = .info p → (w.machine.disk.fileAt p).isSome = true

/-- No file was gone when it was asked for its size. -/
def NoneVanished (w : World) : Prop := ∀ d, .noted (.vanished d) ∉ w.spec.events

theorem noneVanished_concat {w w' : World} {e : CallEvent Party Note Outcome} (h : NoneVanished w)
    (he : ∀ d, e ≠ .noted (.vanished d)) (hw : w'.spec.events = w.spec.events ++ [e]) : NoneVanished w' := by
  intro d hd
  rw [hw] at hd
  rcases List.mem_append.mp hd with hd | hd
  · exact h d hd
  · exact he d (List.mem_singleton.mp hd).symm

theorem noneVanished_after {d : Party} {c : Choice} {q : FsRequest} {w : World} (h : NoneVanished w)
    (hq : sizeable d q w (w.after s d c q)) : NoneVanished (w.after s d c q) := by
  intro d' hd
  rw [events_after] at hd
  rcases List.mem_append.mp hd with hd | hd
  · exact h d' hd
  · obtain ⟨n, hn, heq⟩ := List.mem_map.mp hd
    cases heq
    unfold notes at hn
    rcases List.mem_append.mp hn with hn | hn
    · split_ifs at hn
      · cases List.mem_singleton.mp hn
      · exact absurd hn List.not_mem_nil
    · cases q with
      | ctxErr =>
        simp only at hn
        split_ifs at hn
        · cases List.mem_singleton.mp hn
        · exact absurd hn List.not_mem_nil
      | info p =>
        have hsome := hq p rfl
        simp only at hn
        split_ifs at hn with hnone
        · rw [hnone] at hsome
          cases hsome
        · exact absurd hn List.not_mem_nil
      | _ => exact absurd hn List.not_mem_nil

theorem noneVanished_leave {d : Party} {r : Except StoreError Outcome} {w : World} (h : NoneVanished w) :
    NoneVanished (w.leave d r) := by
  cases r with
  | error e => exact h
  | ok r => exact noneVanished_concat (e := .returned d r) h (fun _ => nofun) rfl

theorem sound_sizeable : Threads.Sound ((calls s opts).restrict sizeable (fun _ _ => True))
    (fun w => Consistent s w ∧ NoneVanished w) (callProtocol s opts) (Ready s) :=
  sound_calls.strengthen (fun d _ _ h => noneVanished_concat (e := .called d) h (fun _ => nofun) rfl)
    (fun d q w r w' _ h _ hs hok _ => by
      obtain ⟨-, c, rfl, rfl⟩ := hs
      exact noneVanished_after h hok)
    (fun _ _ _ _ h => noneVanished_leave h) (fun _ _ _ _ h => h.elim) (fun _ _ _ h => h)

/-- What is promised of listings in a configuration that has been reached: one that nobody interferes with ends, the
client's as well, and is exact; one that is returned among other calls has every object that was there throughout. -/
structure Lists (s : FSStore) (opts : Options) (c : Calling) : Prop where
  quiet : ∀ a pre, validatePrefix pre = .ok () → ∃ objects, Exactly a (heldOn s.base c.store.machine.disk) pre objects ∧
    ∃ bound, ∀ pages, bound ≤ pages →
      (∀ limit, 1 ≤ limit → (program s opts (.follow a pre limit pages)).run smoothly c.store.machine =
        (.ok (.ok (.listed objects)), c.store.machine)) ∧
      (program s opts (.fetch a pre pages)).run smoothly c.store.machine = (.ok (.ok (.listed objects)), c.store.machine)
  shared : ∀ d objects, c.running d = some (.pure (.ok (.listed objects))) →
    objects.Pairwise (fun x y => x.name < y.name) ∧ (∀ o ∈ objects, validateName o.name = .ok () ∧ d.1.pre <+: o.name) ∧
    ∀ name, validateName name = .ok () → d.1.pre <+: name → c.store.steady d (s.place d.1.account name) = true →
      name ∈ objects.map Object.name

/-- In every run in which no file is gone when it is asked for its size, listings are complete. -/
theorem lists_of_sizeable {disk : Disk} (h : Opens s disk) {c : Calling}
    (hr : ((calls s opts).restrict sizeable (fun _ _ => True)).Reach (opened s disk) c) : Lists s opts c := by
  have hstart : Threads.Kept (fun w => Consistent s w ∧ NoneVanished w) (callProtocol s opts) (Ready s) (opened s disk) :=
    Threads.kept_of_idle ⟨consistent_start h, fun _ => List.not_mem_nil⟩ (fun _ => rfl)
  obtain ⟨⟨hw, hnone⟩, hprograms⟩ := sound_sizeable.reach hstart hr
  refine ⟨fun a pre hpre => ?_, fun d objects hrun => ?_⟩
  · refine ⟨matching a (heldOn s.base c.store.machine.disk) pre, exactly_matching,
      c.store.machine.disk.files.rows.length + 1, fun pages hpages => ?_⟩
    obtain ⟨hfollow, hfetch⟩ := run_listing (a := a) opts hw.tidy hpre (Nat.lt_of_succ_le hpages)
    exact ⟨fun limit _ => hfollow limit, hfetch⟩
  · have hready : Ready s d (.ok (.listed objects)) c.store :=
      hprograms d _ hrun c.store ((callProtocol s opts d).rely_refl _)
    rcases hready.2 objects rfl with hG | hgone
    · exact ⟨hG.sorted, fun o ho => ⟨(hG.listable o ho).valid, (hG.listable o ho).start⟩,
        fun name hn hpre hk => hG.covers name hn hpre trivial hk⟩
    · exact absurd hgone (hnone d)

end Shared

/-! ### A file that is deleted while it is listed -/

def listAll : Party := (.follow alice [] 10 5, 0)

/-- Two puts, and a listing. -/
def listMoves : List Move := putMoves ++ [.enter putSecond, .finish putSecond, .enter listAll, .ask listAll 100]

/-- The first object is deleted after the listing has read the directory of both. -/
def cutMoves : List Move :=
  putMoves ++ [.enter putSecond, .finish putSecond, .enter listAll, .ask listAll 10, .enter deleteSample, .finish deleteSample,
    .ask listAll 100]

def sampleRun (moves : List Move) : Calling :=
  moves.foldl (play (sampleStore 0) sampleOptions) (opened (sampleStore 0) (Disk.fresh (sampleStore 0).base))

/-- A file that is asked for its size is there. -/
def present (q : FsRequest) (w : World) : Bool :=
  match q with
  | .info p => (w.machine.disk.fileAt p).isSome
  | _ => true

theorem sizeable_of_present (d : Party) (q : FsRequest) (w w' : World) (h : present q w = true) : sizeable d q w w' := by
  intro p hq
  subst hq
  exact h

theorem lists_sample : Lists (sampleStore 0) sampleOptions (sampleRun listMoves) :=
  lists_of_sizeable opens_fresh (reach_script sizeable_of_present listMoves _ (by decide +kernel))

/-- A listing that is cut short, of which nothing is reported. -/
theorem exists_cut_listing : ¬ ∀ c, (calls (sampleStore 0) sampleOptions).Reach
    (opened (sampleStore 0) (Disk.fresh (sampleStore 0).base)) c → Lists (sampleStore 0) sampleOptions c := by
  intro h
  have hcut := (h (sampleRun cutMoves) (reach_moves cutMoves _ (by decide +kernel))).shared listAll []
    (listedOf_eq_some (by decide +kernel))
  exact absurd (hcut.2.2 secondName (by decide +kernel) List.nil_prefix (by decide +kernel)) List.not_mem_nil

end Server

end EasyDocket
