import EasyDocket.Server.Measuring

/-!
# Putting, getting and deleting

Every program of the store asks within `Asks`, whatever the other callers do, and returns what its call was answered, or
has an excuse.
-/

namespace EasyDocket

namespace Server

section Calls

variable {s : FSStore} {opts : Options} {d : Party} {w w' : World} {c : Choice} {q : FsRequest}

/-! ## Writing an object -/

section Writing

variable {data : GoString} {tmp : Path}

/-- What a put asks, and is not decided by. -/
theorem not_deciding_put (hop : d.1 = .put d.1.account d.1.name data) (hq : ∀ p, q ≠ .readFile p)
    (hq' : ∀ a, q ≠ .loadUsage a) (hq'' : ∀ a n, q ≠ .storeUsage a n) (hr : ∀ t p, q ≠ .rename t p) :
    ¬ Deciding s d c q w := by
  unfold Deciding
  rw [hop]
  cases q with
  | readFile p => exact absurd rfl (hq p)
  | loadUsage a => exact absurd rfl (hq' a)
  | storeUsage a n => exact absurd rfl (hq'' a n)
  | rename t p => exact absurd rfl (hr t p)
  | _ => exact Bool.false_ne_true

theorem struck_keep (h : struck w.spec.events) : struck (w.after s d c q).spec.events := by
  unfold struck
  rw [events_after]
  exact List.mem_append_left _ h

theorem cacheRight_keep {a : Account} (h : CacheRight w a) (hnot : ¬ Deciding s d c q w)
    (husage : ¬ TouchesUsage q a.id) : CacheRight (w.after s d c q) a := by
  intro used hused
  rw [show (w.after s d c q).machine.usages a.id = w.machine.usages a.id from usages_serve husage] at hused
  rw [object_after s hnot]
  exact ⟨(h used hused).1, fun hs => (h used hused).2 (fun hw => hs (struck_keep hw))⟩

theorem MayStore.keep (h : MayStore s d data w) (hnot : ¬ Deciding s d c q w) : MayStore s d data (w.after s d c q) := by
  refine ⟨h.op, h.valid, ?_, ?_, ?_⟩
  · unfold Undecided
    rw [calls_after s hnot]
    exact h.undecided
  · unfold World.content
    rw [object_after s hnot]
    exact h.absent
  · unfold World.total
    rw [object_after s hnot]
    exact h.fits

theorem CleanBut.keep (h : CleanBut s d tmp w) (hfiles : ∀ p, p ≠ tmp → ¬ Touches c q p) : CleanBut s d tmp (w.after s d c q) := by
  intro hs p hp ht hne
  rw [show (w.after s d c q).machine.disk.fileAt p = w.machine.disk.fileAt p from fileAt_serve (hfiles p hne)]
  exact h (fun hw => hs (struck_keep hw)) p hp ht hne

variable (s)

/-- A put is filling its temporary file, and `content` is what it has. -/
structure Filling (d : Party) (data : GoString) (tmp : Path) (content : GoString) (w : World) : Prop where
  owns : Owns d w
  cache : CacheRight w d.1.account
  but : CleanBut s d tmp w
  may : MayStore s d data w
  temp : OwnTemp s d tmp
  here : w.machine.disk.fileAt tmp = some content
  dir : w.machine.disk.isDirAt (s.place d.1.account d.1.name).dropLast = true

/-- A put is done with its temporary file, and ready to return `r`. -/
structure Closing (d : Party) (tmp : Path) (r : Outcome) (w : World) : Prop where
  owns : Owns d w
  cache : CacheRight w d.1.account
  but : CleanBut s d tmp w
  temp : OwnTemp s d tmp
  settled : Settled s d r w

variable {s} {content : GoString}

theorem stable_filling : (callProtocol s opts d).Stable (Filling s d data tmp content) := fun _ _ h hu =>
  ⟨h.owns.undisturbed hu.1, h.cache.undisturbed h.owns hu.1, h.but.undisturbed h.owns hu.1, h.may.undisturbed h.owns hu.1,
    h.temp, (hu.1.files _ h.owns tmp h.temp.home).trans h.here, hu.1.dirs _ h.dir⟩

theorem stable_closing {r : Outcome} : (callProtocol s opts d).Stable (Closing s d tmp r) := fun _ _ h hu =>
  ⟨h.owns.undisturbed hu.1, h.cache.undisturbed h.owns hu.1, h.but.undisturbed h.owns hu.1, h.temp, h.settled.undisturbed hu.1⟩

theorem stable_struck {I : World → Prop} (hI : (callProtocol s opts d).Stable I) :
    (callProtocol s opts d).Stable (fun w => I w ∧ struck w.spec.events) := fun w w' h hu =>
  ⟨hI w w' h.1 hu, hu.1.struck h.2⟩

/-- A failure after which a put gives up. -/
theorem Filling.give_up (h : Filling s d data tmp content w) (hs : struck w.spec.events) (step : GoString) (e : WalkError) :
    Closing s d tmp (.error (.storage step e)) w :=
  ⟨h.owns, h.cache, h.but, h.temp, Or.inr ⟨h.may.undecided, Or.inr (Or.inr (Or.inr ⟨hs, Or.inl ⟨step, e, rfl⟩⟩))⟩⟩

theorem wp_give_up {post : Unit → World → Prop} {step : GoString} {e : FsError}
    (h : Filling s d data tmp content w) (hs : struck w.spec.events) :
    (callProtocol s opts d).wp post (fun e => Closing s d tmp (.error e)) (.throw (.storage step (.fs e))) w :=
  wp_fail (stable_struck stable_filling) ⟨h, hs⟩ (fun _ h => h.1.give_up h.2 step (.fs e))

/-- Closing the file before giving up. -/
theorem wp_close_give_up {post : Unit → World → Prop} {step : GoString} {e : FsError}
    (h : Filling s d data tmp content w) (hs : struck w.spec.events) :
    (callProtocol s opts d).wp post (fun e => Closing s d tmp (.error e))
      ((Fs.ask (.close tmp)).bind (fun _ => .throw (.storage step (.fs e)))) w :=
  wp_quiet trivial (stable_struck stable_filling) ⟨h, hs⟩ (fun _ _ => trivial)
    (fun _ _ _ h' _ _ => wp_give_up h'.1 h'.2)

/-- A step of a put that only can fail. -/
theorem wp_check {β : Type} {post : β → World → Prop} {step : GoString} {f : Fs β} {r : Except FsError Unit}
    (hr : r = .ok () ∨ ∃ e, r = .error e ∧ struck w.spec.events) (h : Filling s d data tmp content w)
    (hok : (callProtocol s opts d).wp post (fun e => Closing s d tmp (.error e)) f w) :
    (callProtocol s opts d).wp post (fun e => Closing s d tmp (.error e)) ((Fs.check step r).bind (fun _ => f)) w := by
  rcases hr with rfl | ⟨e, rfl, hs⟩
  · exact hok
  · exact wp_fail (stable_struck stable_filling) ⟨h, hs⟩ (fun _ h => h.1.give_up h.2 step (.fs e))

/-- What a write leaves of the temporary file. -/
theorem Filling.write {content' : GoString} (h : Filling s d data tmp content w) (b : GoString)
    (hfile : (w.after s d c (.write tmp b)).machine.disk.fileAt tmp = some content') :
    Filling s d data tmp content' (w.after s d c (.write tmp b)) := by
  have hnot : ¬ Deciding s d c (.write tmp b) w := not_deciding_put h.may.op (fun _ => nofun) (fun _ => nofun)
    (fun _ _ => nofun) (fun _ _ => nofun)
  exact ⟨owns_after h.owns rfl, cacheRight_keep h.cache hnot (fun h => h), h.but.keep (fun p hne ht => hne ht),
    h.may.keep hnot, h.temp, hfile, isDirAt_serve h.dir⟩

theorem Settled.keep {r : Outcome} (h : Settled s d r w) (hnot : ¬ Deciding s d c q w) : Settled s d r (w.after s d c q) := by
  unfold Settled Undecided
  rw [calls_after s hnot, events_after]
  exact h.imp_right (And.imp_right (fun he => he.mono (fun _ h => List.mem_append_left _ h)))

theorem Settled.of_answer {r : Outcome} {answer : Answer} (hcall : w.spec.calls d = some (some answer))
    (hr : d.1.Answers s.quota answer r) : Settled s d r w := Or.inl ⟨answer, hcall, hr⟩

/-- A call that can only fail. -/
theorem reply_cases {r : Except FsError Unit} (hr : r = if c.fails = true then .error .other else .ok ())
    (hq : c.strikes q w.machine = c.fails) : r = .ok () ∨ ∃ e, r = .error e ∧ struck (w.after s d c q).spec.events := by
  cases hf : c.fails with
  | true =>
    rw [hf] at hr
    exact Or.inr ⟨.other, hr, struck_after s (hq.trans hf)⟩
  | false =>
    rw [hf] at hr
    exact Or.inl hr

/-- The rename of a put stores its object. -/
theorem Filling.rename (h : Filling s d data tmp data w)
    (hserve : serve c (.rename tmp (s.place d.1.account d.1.name)) w.machine =
      (.ok (), w.machine.setDisk ((w.machine.disk.delete tmp).create (s.place d.1.account d.1.name) data))) :
    Owns d (w.after s d c (.rename tmp (s.place d.1.account d.1.name))) ∧
      CleanBut s d tmp (w.after s d c (.rename tmp (s.place d.1.account d.1.name))) ∧
      Settled s d (.ok .stored) (w.after s d c (.rename tmp (s.place d.1.account d.1.name))) := by
  have hdec : Deciding s d c (.rename tmp (s.place d.1.account d.1.name)) w :=
    deciding_of_ok (congrArg Prod.fst hserve) h.may.op
  refine ⟨owns_after h.owns rfl, ?_, ?_⟩
  · intro hs p hp ht hne
    have hplace : p ≠ s.place d.1.account d.1.name := fun hpp => objectPath_ne_temp h.may.valid ht hpp.symm
    have huntouched : ¬ Touches c (.rename tmp (s.place d.1.account d.1.name)) p := not_or.mpr ⟨hne, hplace⟩
    rw [show (w.after s d c (.rename tmp (s.place d.1.account d.1.name))).machine.disk.fileAt p =
      w.machine.disk.fileAt p from fileAt_serve huntouched]
    exact h.but (fun hw => hs (struck_keep hw)) p hp ht hne
  · refine Settled.of_answer (show _ = some (some Answer.stored) from ?_) (by rw [h.may.op]; rfl)
    rw [calls_after_deciding s hdec, Function.update_self]
    have happly : (d.1.apply s.quota w.spec.object).1 = .stored := by
      rw [h.may.op]
      exact congrArg Prod.fst (apply_put_stored h.may.absent h.may.fits)
    rw [happly]

/-- The last request of a put: its usage is forgotten. -/
theorem wp_forget {X : StoreError → World → Prop} {r : Outcome} (howns : Owns d w) (hbut : CleanBut s d tmp w)
    (htemp : OwnTemp s d tmp) (hsettled : Settled s d r w) (hop : d.1 = .put d.1.account d.1.name data) :
    (callProtocol s opts d).wp (fun _ => Closing s d tmp r) X (Fs.ask (.deleteUsage d.1.account.id)) w := by
  have hst : (callProtocol s opts d).Stable (fun w => Owns d w ∧ CleanBut s d tmp w ∧ Settled s d r w) := fun w w' h hu =>
    ⟨h.1.undisturbed hu.1, h.2.1.undisturbed h.1 hu.1, h.2.2.undisturbed hu.1⟩
  rw [← Prog.bind_pure (Fs.ask (.deleteUsage d.1.account.id))]
  refine wp_call hst ⟨howns, hbut, hsettled⟩ (fun w h => ⟨rfl, h.1⟩) (fun w c h hw hw' => ?_)
  have hnot : ¬ Deciding s d c (.deleteUsage d.1.account.id) w := not_deciding_put hop (fun _ => nofun) (fun _ => nofun)
    (fun _ _ => nofun) (fun _ _ => nofun)
  refine wp_done stable_closing ⟨owns_after h.1 rfl, ?_, h.2.1.keep (fun _ _ h => h), htemp, ?_⟩ (fun _ h => h)
  · intro used hused
    rw [show (w.after s d c (.deleteUsage d.1.account.id)).machine.usages d.1.account.id = none from
      Function.update_self _ _ _] at hused
    cases hused
  · exact h.2.2.keep hnot

theorem wp_rename (h : Filling s d data tmp data w) :
    (callProtocol s opts d).wp (fun _ => Closing s d tmp (.ok .stored)) (fun e => Closing s d tmp (.error e))
      ((Fs.ask (.rename tmp (s.place d.1.account d.1.name))).bind (fun r => (Fs.check (go "rename") r).bind
        (fun _ => Fs.ask (.deleteUsage d.1.account.id)))) w := by
  refine wp_call stable_filling h (fun w h => ⟨h.owns, h.temp, rfl, data, h.here, h.may⟩) (fun w c h hw hw' => ?_)
  have hfiled := s.filed_place d.1.account h.may.valid
  have hserve := serve_rename (c := c) h.here (hw.tidy.not_dir hfiled) h.dir
  cases hf : c.fails with
  | true =>
    rw [hf] at hserve
    have hnot : ¬ Deciding s d c (.rename tmp (s.place d.1.account d.1.name)) w :=
      not_deciding_of_error (congrArg Prod.fst hserve) h.may.op
    have hF : Filling s d data tmp data (w.after s d c (.rename tmp (s.place d.1.account d.1.name))) := by
      have hdisk : (w.after s d c (.rename tmp (s.place d.1.account d.1.name))).machine = w.machine := congrArg Prod.snd hserve
      refine ⟨owns_after h.owns rfl, cacheRight_keep h.cache hnot (fun h => h), ?_, h.may.keep hnot, h.temp, ?_, ?_⟩
      · intro hs
        exact (hs (struck_after s hf)).elim
      · rw [hdisk]
        exact h.here
      · rw [hdisk]
        exact h.dir
    rw [hserve]
    exact wp_give_up hF (struck_after s hf)
  | false =>
    rw [hf] at hserve
    obtain ⟨howns, hbut, hsettled⟩ := h.rename hserve
    rw [hserve]
    exact wp_forget howns hbut h.temp hsettled h.may.op

/-- `Put` from the creation of its temporary file on. -/
theorem wp_fill (h : Filling s d data tmp content w) :
    (callProtocol s opts d).wp (fun _ => Closing s d tmp (.ok .stored)) (fun e => Closing s d tmp (.error e))
      (FSStore.fill d.1.account.id tmp (s.place d.1.account d.1.name) data) w := by
  unfold FSStore.fill
  refine wp_call stable_filling h (fun w h => ⟨h.owns, h.temp⟩) (fun w c h hw hw' => ?_)
  have hserve : serve c (.write tmp data) w.machine = _ := serve_write h.here
  cases hf : c.fails with
  | true =>
    rw [hf] at hserve
    have hF := h.write (c := c) data (by
      show (serve c (.write tmp data) w.machine).2.disk.fileAt tmp = some c.written
      rw [hserve]
      exact Disk.fileAt_create.trans (if_pos rfl))
    rw [hserve]
    exact wp_close_give_up hF (struck_after s hf)
  | false =>
    rw [hf] at hserve
    have hF := h.write (c := c) data (by
      show (serve c (.write tmp data) w.machine).2.disk.fileAt tmp = some data
      rw [hserve]
      exact Disk.fileAt_create.trans (if_pos rfl))
    rw [hserve]
    refine wp_quiet trivial stable_filling hF (fun _ _ => trivial) (fun w c _ hF hw hw' => ?_)
    have hsync : (serve c (.sync tmp) w.machine).1 = .ok () ∨
        ∃ e, (serve c (.sync tmp) w.machine).1 = .error e ∧ struck (w.after s d c (.sync tmp)).spec.events :=
      reply_cases rfl rfl
    rcases hsync with hr | ⟨e, hr, hs⟩
    · rw [hr]
      refine wp_quiet trivial stable_filling hF (fun _ _ => trivial) (fun w c _ hF hw hw' => ?_)
      refine wp_check (reply_cases rfl rfl) hF ?_
      refine wp_quiet trivial stable_filling hF (fun _ _ => trivial) (fun w c h hF hw hw' => ?_)
      refine wp_check (reply_cases (serve_chmod h.here) rfl) hF ?_
      refine wp_rename hF
    · rw [hr]
      exact wp_close_give_up hF hs

end Writing

/-! ## Putting -/

section Putting

variable {data : GoString} {tmp : Path}

/-- The outcome of a put. -/
def putOutcome (r : Except StoreError Unit) : Outcome := r.map (fun _ => .stored)

theorem length_dropLast_place (a : Account) {name : GoString} (hn : validateName name = .ok ()) :
    (s.place a name).dropLast.length = s.base.length + 4 := by
  obtain ⟨rest, hrest, hlen⟩ := place_split (s := s) a hn
  rw [hrest, List.length_append, List.length_cons, hlen]

theorem Storable.give_up (h : Storable s d data w) (hs : struck w.spec.events) (step : GoString) (e : WalkError) :
    Returning s d (.error (.storage step e)) w :=
  ⟨h.owns, h.cache, h.clean, Or.inr ⟨h.may.undecided, Or.inr (Or.inr (Or.inr ⟨hs, Or.inl ⟨step, e, rfl⟩⟩))⟩⟩

/-- Making the directory of an object. -/
theorem wp_makeDir {β : Type} {post : β → World → Prop} {f : Fs β} (h : Storable s d data w)
    (hok : ∀ w, Storable s d data w → w.machine.disk.isDirAt (s.place d.1.account d.1.name).dropLast = true →
      (callProtocol s opts d).wp post (fun e => Returning s d (.error e)) f w) :
    (callProtocol s opts d).wp post (fun e => Returning s d (.error e))
      ((Fs.ask (.mkdirAll (s.place d.1.account d.1.name).dropLast)).bind (fun r => (Fs.check (go "create dir") r).bind
        (fun _ => f))) w := by
  have hlen := length_dropLast_place (s := s) d.1.account h.may.valid
  refine wp_quiet trivial stable_storable h (fun _ _ => hlen.le) (fun w c _ h' hw hw' => ?_)
  have hfree : ∀ q, q <+: (s.place d.1.account d.1.name).dropLast → w.machine.disk.fileAt q = none := by
    intro q hq
    refine Option.not_isSome_iff_eq_none.mp (fun hs => ?_)
    have := hq.length_le
    have := file_short hw hs
    omega
  have hserve := serve_mkdirAll (c := c) hfree
  cases hf : c.fails with
  | true =>
    rw [hf] at hserve
    rw [hserve]
    exact wp_fail (stable_struck stable_storable) ⟨h', struck_after s hf⟩ (fun _ h => h.1.give_up h.2 _ _)
  | false =>
    rw [hf] at hserve
    have hdir : (w.after s d c (.mkdirAll (s.place d.1.account d.1.name).dropLast)).machine.disk.isDirAt
        (s.place d.1.account d.1.name).dropLast = true := by
      show (serve c (.mkdirAll _) w.machine).2.disk.isDirAt _ = true
      rw [hserve]
      exact Disk.isDirAt_makeDirs.mpr (Or.inr (List.prefix_refl _))
    rw [hserve]
    exact hok _ h' hdir

theorem ownTemp_of_created (hn : validateName d.1.name = .ok ()) (c : Choice) :
    OwnTemp s d ((s.place d.1.account d.1.name).dropLast ++ [c.tempName]) := by
  obtain ⟨rest, hrest, hlen⟩ := place_split (s := s) d.1.account hn
  rw [hrest]
  refine ⟨⟨rest ++ [c.tempName], ?_⟩, ?_, filed_temp d.1.account.valid rfl hlen⟩
  · unfold FSStore.home
    simp
  · rw [List.getLastD_concat]
    exact List.prefix_append _ _

/-- Creating the temporary file of an object. -/
theorem wp_createTemp {β : Type} {post : β → World → Prop} {f : Path → Fs β} (h : Storable s d data w)
    (hdir : w.machine.disk.isDirAt (s.place d.1.account d.1.name).dropLast = true)
    (hok : ∀ w tmp, Filling s d data tmp [] w → (callProtocol s opts d).wp post (fun e => Returning s d (.error e)) (f tmp) w) :
    (callProtocol s opts d).wp post (fun e => Returning s d (.error e))
      ((Fs.ask (.createTemp (s.place d.1.account d.1.name).dropLast)).bind (fun r => (Fs.check (go "create temp") r).bind f)) w := by
  refine wp_call (I := fun w => Storable s d data w ∧ w.machine.disk.isDirAt (s.place d.1.account d.1.name).dropLast = true)
    (fun w w' h hu => ⟨stable_storable _ _ h.1 hu, hu.1.dirs _ h.2⟩) ⟨h, hdir⟩
    (fun w h => ⟨h.1.owns, place_split (s := s) d.1.account h.1.may.valid⟩) (fun w c h hw hw' => ?_)
  obtain ⟨h, hdir⟩ := h
  have hnot : ¬ Deciding s d c (.createTemp (s.place d.1.account d.1.name).dropLast) w :=
    not_deciding_put h.may.op (fun _ => nofun) (fun _ => nofun) (fun _ _ => nofun) (fun _ _ => nofun)
  have hserve := serve_createTemp (c := c) hdir
  cases hf : c.strikes (.createTemp (s.place d.1.account d.1.name).dropLast) w.machine with
  | true =>
    rw [hf] at hserve
    have hs := struck_after s (d := d) hf
    rw [hserve]
    exact wp_fail (stable_struck stable_storable)
      ⟨⟨owns_after h.owns rfl, cacheRight_keep h.cache hnot (fun h => h), fun hn => (hn hs).elim, h.may.keep hnot⟩, hs⟩
      (fun _ h => h.1.give_up h.2 _ _)
  | false =>
    rw [hf] at hserve
    have hF : Filling s d data ((s.place d.1.account d.1.name).dropLast ++ [c.tempName]) []
        (w.after s d c (.createTemp (s.place d.1.account d.1.name).dropLast)) := by
      refine ⟨owns_after h.owns rfl, cacheRight_keep h.cache hnot (fun h => h), ?_, h.may.keep hnot,
        ownTemp_of_created h.may.valid c, ?_, isDirAt_serve hdir⟩
      · exact CleanBut.keep (fun hs p hp ht _ => h.clean hs p hp ht) (fun p hne ht => hne ht)
      · show (serve c (.createTemp _) w.machine).2.disk.fileAt _ = some []
        rw [hserve]
        exact Disk.fileAt_create.trans (if_pos rfl)
    rw [hserve]
    exact hok _ _ hF

/-- Removing the temporary file of an object. -/
theorem wp_removeTemp {r : Except StoreError Unit} (hop : d.1 = .put d.1.account d.1.name data)
    (h : Closing s d tmp (putOutcome r) w) :
    (callProtocol s opts d).wp (fun _ => Returning s d (.ok .stored)) (fun e => Returning s d (.error e))
      ((Fs.ask (.remove tmp)).bind (fun _ => Fs.ofExcept r)) w := by
  have hnodelete : ∀ a name, d.1 ≠ .delete a name := by
    intro a name h
    rw [hop] at h
    cases h
  refine wp_call stable_closing h (fun w h => ⟨h.owns, Or.inl ⟨h.temp, hnodelete⟩⟩) (fun w c h hw hw' => ?_)
  have hnot : ¬ Deciding s d c (.remove tmp) w := not_deciding_put hop (fun _ => nofun) (fun _ => nofun)
    (fun _ _ => nofun) (fun _ _ => nofun)
  have hR : Returning s d (putOutcome r) (w.after s d c (.remove tmp)) := by
    refine ⟨owns_after h.owns rfl, cacheRight_keep h.cache hnot (fun h => h), fun hs p hp ht => ?_, h.settled.keep hnot⟩
    by_cases hpt : p = tmp
    · have hserve := serve_remove (c := c) (hw.tidy.not_dir h.temp.filed)
      have hf : c.fails = false := by
        cases hf : c.fails with
        | true => exact (hs (struck_after s hf)).elim
        | false => rfl
      show (serve c (.remove tmp) w.machine).2.disk.fileAt p = none
      rw [hserve, hf, hpt]
      by_cases hnone : w.machine.disk.fileAt tmp = none
      · rw [if_neg Bool.false_ne_true, if_pos hnone]
        exact hnone
      · rw [if_neg Bool.false_ne_true, if_neg hnone]
        exact Disk.fileAt_delete.trans (if_pos rfl)
    · rw [show (w.after s d c (.remove tmp)).machine.disk.fileAt p = w.machine.disk.fileAt p from fileAt_serve hpt]
      exact h.but (fun hw => hs (struck_keep hw)) p hp ht hpt
  cases r with
  | ok u => exact wp_done (stable_returning _) hR (fun _ h => h)
  | error e => exact wp_fail (stable_returning _) hR (fun _ h => h)

/-- `Put` once it is known that the name is free and the quota allows. -/
theorem wp_store (h : Storable s d data w) :
    (callProtocol s opts d).wp (fun _ => Returning s d (.ok .stored)) (fun e => Returning s d (.error e))
      (FSStore.store d.1.account.id (s.place d.1.account d.1.name) data) w := by
  unfold FSStore.store
  refine wp_makeDir h (fun w h hdir => wp_createTemp h hdir (fun w tmp hF => ?_))
  have hattempt : (callProtocol s opts d).wp (fun r => Closing s d tmp (putOutcome r)) (fun e => Returning s d (.error e))
      (Fs.attempt (FSStore.fill d.1.account.id tmp (s.place d.1.account d.1.name) data)) w :=
    wp_attempt (fun r => stable_closing) (wp_fill hF)
  exact Protocol.wp_bind (Protocol.wp_mono hattempt (fun r w h => wp_removeTemp hF.may.op h) (fun _ _ hx => hx))

variable (s)

/-- A call holds the lock of its account, and has not acted. -/
structure Locked (d : Party) (w : World) : Prop where
  owns : Owns d w
  cache : CacheRight w d.1.account
  clean : Clean s w d.1.account
  undecided : Undecided d w

variable {s}

theorem Locked.undisturbed (h : Locked s d w) (hu : Undisturbed s d w w') : Locked s d w' :=
  ⟨h.owns.undisturbed hu, h.cache.undisturbed h.owns hu, h.clean.undisturbed h.owns hu, h.undecided.undisturbed hu⟩

theorem stable_locked : (callProtocol s opts d).Stable (Locked s d) := fun _ _ h hu => h.undisturbed hu.1

theorem Locked.returning {r : Outcome} (h : Locked s d w) (he : Excuses s.quota w.spec.events d r) : Returning s d r w :=
  ⟨h.owns, h.cache, h.clean, Or.inr ⟨h.undecided, he⟩⟩

theorem gaveUp_after (h : c.givenUp = true) : .noted (.gaveUp d) ∈ (w.after s d c .ctxErr).spec.events := by
  rw [events_after]
  refine List.mem_append_right _ (List.mem_map_of_mem (List.mem_append_right _ ?_))
  simp only [h, if_true]
  exact List.mem_singleton_self _

/-- Returning if the context is done. -/
theorem wp_alive {β : Type} {post : β → World → Prop} {xpost : StoreError → World → Prop} {I : World → Prop} {f : Unit → Fs β}
    (hI : (callProtocol s opts d).Stable I) (h : I w)
    (hx : ∀ w, I w → .noted (.gaveUp d) ∈ w.spec.events → xpost .canceled w)
    (hok : ∀ w, I w → (callProtocol s opts d).wp post xpost (f ()) w) :
    (callProtocol s opts d).wp post xpost (FSStore.alive.bind f) w := by
  have hassoc : FSStore.alive.bind f = (Fs.ask .ctxErr).bind (fun (b : Bool) =>
      Prog.bind (if b = true then throw .canceled else pure ()) f) := Prog.bind_assoc _ _ _
  rw [hassoc]
  refine wp_quiet trivial hI h (fun _ _ => trivial) (fun w c _ h' _ _ => ?_)
  show (callProtocol s opts d).wp post xpost (Prog.bind (if c.givenUp = true then throw .canceled else pure ()) f) _
  cases hg : c.givenUp with
  | true =>
    refine wp_fail (I := fun w => I w ∧ .noted (.gaveUp d) ∈ w.spec.events)
      (fun w w' h hu => ⟨hI w w' h.1 hu, hu.1.events.subset h.2⟩) ⟨h', gaveUp_after hg⟩ (fun w h => hx w h.1 h.2)
  | false => exact hok _ h'

/-- A put that has found its name taken. -/
theorem wp_taken {existing : GoString} (h : Locked s d w) (hop : d.1 = .put d.1.account d.1.name data)
    (hn : validateName d.1.name = .ok ()) (hw : Consistent s w)
    (hr : (serve c (.readFile (s.place d.1.account d.1.name)) w.machine).1 = .ok existing) :
    (callProtocol s opts d).wp (fun _ => Returning s d (.ok .stored)) (fun e => Returning s d (.error e))
      (if existing = data then pure () else throw (.alreadyExists d.1.name))
      (w.after s d c (.readFile (s.place d.1.account d.1.name))) := by
  have hdec : Deciding s d c (.readFile (s.place d.1.account d.1.name)) w := by
    unfold Deciding
    rw [hop]
    rw [hop] at hr
    rw [hr]
    rfl
  have hcontent : w.spec.object.content d.1.account.id d.1.name = some existing := (content_place hw hn).trans (readFile_ok hr).2
  have hasks : Asks s d (.readFile (s.place d.1.account d.1.name)) w := ⟨hn, rfl, h.undecided⟩
  have happly : d.1.apply s.quota w.spec.object = (if existing = data then .stored else .conflict, w.spec.object) := by
    rw [hop]
    exact apply_put_taken hcontent
  have hcall : (w.after s d c (.readFile (s.place d.1.account d.1.name))).spec.calls d =
      some (some (if existing = data then .stored else .conflict)) := by
    rw [calls_after_deciding s hdec, Function.update_self, happly]
  have hcache := cacheRight_after hw hasks (c := c) h.cache (fun _ _ h => h) (fun h => h)
  have hclean := clean_after (c := c) (d := d) (q := .readFile (s.place d.1.account d.1.name)) h.clean (fun _ _ h => h)
  by_cases hsame : existing = data
  · rw [if_pos hsame] at hcall ⊢
    exact wp_done (stable_returning (.ok .stored))
      ⟨owns_after h.owns rfl, hcache, hclean, .of_answer hcall (by rw [hop]; rfl)⟩ (fun _ h => h)
  · rw [if_neg hsame] at hcall ⊢
    exact wp_fail (stable_returning (.error (.alreadyExists d.1.name)))
      ⟨owns_after h.owns rfl, hcache, hclean, .of_answer hcall (by rw [hop]; rfl)⟩ (fun _ h => h)

/-- A read that decides nothing. -/
theorem undisturbed_read (hnot : ¬ Deciding s d c (.readFile (s.place d.1.account d.1.name)) w) :
    Undisturbed s d w (w.after s d c (.readFile (s.place d.1.account d.1.name))) :=
  undisturbed_quiet s hnot (fun _ h => h) (fun _ h => h) rfl

/-- A failed read of an object. -/
theorem struck_of_read (hw : Consistent s w) (hn : validateName d.1.name = .ok ())
    (hr : (serve c (.readFile (s.place d.1.account d.1.name)) w.machine).1 = .error .other) :
    struck (w.after s d c (.readFile (s.place d.1.account d.1.name))).spec.events := by
  refine struck_after s ((readFile_other hr).resolve_right (fun hdir => ?_))
  rw [hw.tidy.not_dir (s.filed_place d.1.account hn)] at hdir
  cases hdir

/-- `Put` under the lock of its account. -/
theorem wp_putLocked (h : Locked s d w) (hop : d.1 = .put d.1.account d.1.name data) (hn : validateName d.1.name = .ok ()) :
    (callProtocol s opts d).wp (fun _ => Returning s d (.ok .stored)) (fun e => Returning s d (.error e))
      (s.putLocked d.1.account.id d.1.name (s.place d.1.account d.1.name) data) w := by
  unfold FSStore.putLocked
  refine wp_alive stable_locked h (fun w h hg => h.returning (Or.inr (Or.inr (Or.inl ⟨hg, rfl⟩)))) (fun w h => ?_)
  refine wp_call stable_locked h (fun w h => ⟨hn, rfl, h.undecided⟩) (fun w c h hw hw' => ?_)
  cases hr : (serve c (.readFile (s.place d.1.account d.1.name)) w.machine).1 with
  | ok existing => exact wp_taken h hop hn hw hr
  | error e =>
    have hnot : ¬ Deciding s d c (.readFile (s.place d.1.account d.1.name)) w := by
      unfold Deciding
      rw [hop]
      rw [hop] at hr
      rw [hr]
      exact Bool.false_ne_true
    have hL := h.undisturbed (undisturbed_read hnot)
    cases e with
    | other =>
      exact wp_fail (stable_struck stable_locked) ⟨hL, struck_of_read hw hn hr⟩
        (fun w h => h.1.returning (Or.inr (Or.inr (Or.inr ⟨h.2, Or.inl ⟨_, _, rfl⟩⟩))))
    | notExist =>
      have habsent : (w.after s d c (.readFile (s.place d.1.account d.1.name))).content d = none := by
        unfold World.content
        rw [object_after s hnot]
        exact (content_place hw hn).trans (readFile_notExist hr).2
      exact Protocol.wp_bind (Protocol.wp_mono
        (wp_withinQuota ⟨hop, hn, hL.owns, hL.cache, hL.clean, habsent, hL.undecided⟩)
        (fun _ w h => wp_store h) (fun _ _ hx => hx))

end Putting

/-! ## Calls -/

section Whole

theorem stable_undecided : (callProtocol s opts d).Stable (Undecided d) := fun _ _ h hu => h.undisturbed hu.1

theorem stable_settled {r : Outcome} : (callProtocol s opts d).Stable (Settled s d r) := fun _ _ h hu => h.undisturbed hu.1

/-- The lock of the account. -/
theorem wp_lock {β : Type} {post : β → World → Prop} {xpost : StoreError → World → Prop} {f : Unit → Fs β}
    (h : Undecided d w) (hok : ∀ w, Locked s d w → (callProtocol s opts d).wp post xpost (f ()) w) :
    (callProtocol s opts d).wp post xpost ((Fs.ask (.lock d.1.account.id)).bind f) w := by
  refine Protocol.wp_request_served (I := Undecided d) stable_undecided h (fun _ _ => trivial) (fun w₁ r w₂ h₁ hstep => ?_)
  obtain ⟨hw₁, ⟨hfree, c, rfl, rfl⟩, -⟩ := hstep
  have hnone : w₁.holder d.1.account.id = none := hfree _ rfl
  have hnot : ¬ Deciding s d c (.lock d.1.account.id) w₁ := by
    unfold Deciding
    obtain ⟨op, n⟩ := d
    cases op <;> exact Bool.false_ne_true
  refine ⟨(), rfl, hok _ ⟨Function.update_self _ _ _, cacheRight_keep (hw₁.cache _ hnone) hnot (fun h => h),
    clean_after (hw₁.clean _ hnone) (fun _ _ h => h), ?_⟩⟩
  unfold Undecided
  rw [calls_after s hnot]
  exact h₁

/-- The lock is let go, and the result returned. -/
theorem wp_unlock {β : Type} {r : Except StoreError β} (outcome : Except StoreError β → Outcome)
    (h : Returning s d (outcome r) w) :
    (callProtocol s opts d).wp (fun a => Settled s d (outcome (.ok a))) (fun e => Settled s d (outcome (.error e)))
      ((Fs.ask (.unlock d.1.account.id)).bind (fun _ => Fs.ofExcept r)) w := by
  refine wp_call (stable_returning (outcome r)) h (fun w h => ⟨rfl, h.owns, h.cache, h.clean⟩) (fun w c h hw hw' => ?_)
  have hnot : ¬ Deciding s d c (.unlock d.1.account.id) w := by
    unfold Deciding
    obtain ⟨op, n⟩ := d
    cases op <;> exact Bool.false_ne_true
  have hS : Settled s d (outcome r) (w.after s d c (.unlock d.1.account.id)) := h.settled.keep hnot
  cases r with
  | ok a => exact wp_done stable_settled hS (fun _ h => h)
  | error e => exact wp_fail stable_settled hS (fun _ h => h)

/-- An invalid name is an error. -/
theorem wp_validName {β : Type} {post : β → World → Prop} {f : Unit → Fs β} (outcome : StoreError → Outcome) (h : Undecided d w)
    (herror : ∀ fault, outcome (.invalidName fault) = .error (.invalidName fault))
    (hok : validateName d.1.name = .ok () →
      (callProtocol s opts d).wp post (fun e => Settled s d (outcome e)) (f ()) w) :
    (callProtocol s opts d).wp post (fun e => Settled s d (outcome e)) ((FSStore.validName d.1.name).bind f) w := by
  unfold FSStore.validName
  cases hn : validateName d.1.name with
  | ok u => exact hok hn
  | error fault =>
    refine wp_fail stable_undecided h (fun w h => ?_)
    rw [herror]
    exact Or.inr ⟨h, Or.inr (Or.inl ⟨fault, hn, rfl⟩)⟩

/-- The path of an object is computed without an error. -/
theorem path_bind {β : Type} {f : Path → Fs β} (hn : validateName d.1.name = .ok ()) :
    (s.path d.1.account.id d.1.name).bind f = f (s.place d.1.account d.1.name) := by
  rw [s.path_place d.1.account hn]
  rfl

theorem wp_Put {data : GoString} (h : Undecided d w) (hop : d.1 = .put d.1.account d.1.name data) :
    (callProtocol s opts d).wp (fun a => Settled s d (putOutcome (.ok a))) (fun e => Settled s d (putOutcome (.error e)))
      (s.Put d.1.account.id d.1.name data) w := by
  unfold FSStore.Put
  refine wp_validName (fun e => putOutcome (.error e)) h (fun _ => rfl) (fun hn => ?_)
  show (callProtocol s opts d).wp _ _ ((s.path d.1.account.id d.1.name).bind _) w
  rw [path_bind hn]
  refine wp_lock h (fun w h => ?_)
  have hattempt : (callProtocol s opts d).wp (fun r => Returning s d (putOutcome r)) (fun e => Settled s d (putOutcome (.error e)))
      (Fs.attempt (s.putLocked d.1.account.id d.1.name (s.place d.1.account d.1.name) data)) w :=
    wp_attempt (fun r => stable_returning _) (wp_putLocked h hop hn)
  exact Protocol.wp_bind (Protocol.wp_mono hattempt (fun r w h => wp_unlock putOutcome h) (fun _ _ hx => hx))

theorem apply_get_found {quota : ℤ} {a : Account} {name data : GoString} {held : Held} (h : held.content a.id name = some data) :
    (Op.get a name).apply quota held = (.found data, held) := by
  simp only [Op.apply, h]

theorem apply_get_missing {quota : ℤ} {a : Account} {name : GoString} {held : Held} (h : held.content a.id name = none) :
    (Op.get a name).apply quota held = (.missing, held) := by
  simp only [Op.apply, h]

/-- The outcome of a get. -/
def getOutcome (r : Except StoreError GoString) : Outcome := r.map .found

theorem wp_Get (h : Undecided d w) (hop : d.1 = .get d.1.account d.1.name) :
    (callProtocol s opts d).wp (fun a => Settled s d (getOutcome (.ok a))) (fun e => Settled s d (getOutcome (.error e)))
      (s.Get d.1.account.id d.1.name) w := by
  unfold FSStore.Get
  refine wp_validName (fun e => getOutcome (.error e)) h (fun _ => rfl) (fun hn => ?_)
  refine wp_alive stable_undecided h (fun w h hg => Or.inr ⟨h, Or.inr (Or.inr (Or.inl ⟨hg, rfl⟩))⟩) (fun w h => ?_)
  show (callProtocol s opts d).wp _ _ ((s.path d.1.account.id d.1.name).bind _) w
  rw [path_bind hn]
  refine wp_call stable_undecided h (fun w h => ⟨hn, rfl, h⟩) (fun w c h hw hw' => ?_)
  have hcontent := content_place hw hn
  cases hr : (serve c (.readFile (s.place d.1.account d.1.name)) w.machine).1 with
  | ok data =>
    have hdec : Deciding s d c (.readFile (s.place d.1.account d.1.name)) w := by
      unfold Deciding
      rw [hop]
      rw [hop] at hr
      rw [hr]
      rfl
    have hcall : (w.after s d c (.readFile (s.place d.1.account d.1.name))).spec.calls d = some (some (.found data)) := by
      rw [calls_after_deciding s hdec, Function.update_self, hop]
      exact congrArg (fun a => some (some a)) (congrArg Prod.fst (apply_get_found (hcontent.trans (readFile_ok hr).2)))
    exact wp_done stable_settled (Settled.of_answer (r := getOutcome (.ok data)) hcall (by rw [hop]; rfl)) (fun _ h => h)
  | error e =>
    cases e with
    | notExist =>
      have hdec : Deciding s d c (.readFile (s.place d.1.account d.1.name)) w := by
        unfold Deciding
        rw [hop]
        rw [hop] at hr
        rw [hr]
        rfl
      have hcall : (w.after s d c (.readFile (s.place d.1.account d.1.name))).spec.calls d = some (some .missing) := by
        rw [calls_after_deciding s hdec, Function.update_self, hop]
        exact congrArg (fun a => some (some a)) (congrArg Prod.fst (apply_get_missing (hcontent.trans (readFile_notExist hr).2)))
      exact wp_fail stable_settled (Settled.of_answer (r := getOutcome (.error (.notFound d.1.name))) hcall (by rw [hop]; rfl))
        (fun _ h => h)
    | other =>
      have hnot : ¬ Deciding s d c (.readFile (s.place d.1.account d.1.name)) w := by
        unfold Deciding
        rw [hop]
        rw [hop] at hr
        rw [hr]
        exact Bool.false_ne_true
      exact wp_fail (stable_struck stable_undecided)
        ⟨h.undisturbed (undisturbed_read hnot), struck_of_read hw hn hr⟩
        (fun w h => Or.inr ⟨h.1, Or.inr (Or.inr (Or.inr ⟨h.2, Or.inl ⟨_, _, rfl⟩⟩))⟩)

/-- The outcome of a deletion. -/
def deleteOutcome (r : Except StoreError Unit) : Outcome := r.map (fun _ => .deleted)

variable (s)

/-- A deletion is done with its file, and ready to return `r`. -/
structure Removed (d : Party) (r : Outcome) (w : World) : Prop where
  owns : Owns d w
  clean : Clean s w d.1.account
  settled : Settled s d r w

variable {s}

theorem stable_removed {r : Outcome} : (callProtocol s opts d).Stable (Removed s d r) := fun _ _ h hu =>
  ⟨h.owns.undisturbed hu.1, h.clean.undisturbed h.owns hu.1, h.settled.undisturbed hu.1⟩

/-- The last request of a deletion. -/
theorem wp_forgetDeleted {X : StoreError → World → Prop} {r : Outcome} (h : Removed s d r w)
    (hop : d.1 = .delete d.1.account d.1.name) :
    (callProtocol s opts d).wp (fun _ => Returning s d r) X (Fs.ask (.deleteUsage d.1.account.id)) w := by
  rw [← Prog.bind_pure (Fs.ask (.deleteUsage d.1.account.id))]
  refine wp_call stable_removed h (fun w h => ⟨rfl, h.owns⟩) (fun w c h hw hw' => ?_)
  have hnot : ¬ Deciding s d c (.deleteUsage d.1.account.id) w := by
    unfold Deciding
    rw [hop]
    exact Bool.false_ne_true
  refine wp_done (stable_returning r) ⟨owns_after h.owns rfl, ?_, clean_after h.clean (fun _ _ h => h), h.settled.keep hnot⟩
    (fun _ h => h)
  intro used hused
  rw [show (w.after s d c (.deleteUsage d.1.account.id)).machine.usages d.1.account.id = none from
    Function.update_self _ _ _] at hused
  cases hused

/-- What the removal of an object comes to. -/
theorem removed_after (h : Locked s d w) (hop : d.1 = .delete d.1.account d.1.name)
    (hn : validateName d.1.name = .ok ())
    (hr : (serve c (.remove (s.place d.1.account d.1.name)) w.machine).1 ≠ .error .other) :
    Removed s d (.ok .deleted) (w.after s d c (.remove (s.place d.1.account d.1.name))) := by
  have hdec : Deciding s d c (.remove (s.place d.1.account d.1.name)) w := by
    unfold Deciding
    rw [hop]
    rw [hop] at hr
    cases hreply : (serve c (.remove (s.place (Op.delete d.1.account d.1.name).account (Op.delete d.1.account d.1.name).name))
      w.machine).1 with
    | ok u => rfl
    | error e =>
      cases e with
      | notExist => rfl
      | other => exact absurd hreply hr
  have hcall : (w.after s d c (.remove (s.place d.1.account d.1.name))).spec.calls d = some (some .deleted) := by
    rw [calls_after_deciding s hdec, Function.update_self, hop]
    rfl
  refine ⟨owns_after h.owns rfl, fun hs p hp ht => ?_, .of_answer hcall (by rw [hop]; rfl)⟩
  have hne : p ≠ s.place d.1.account d.1.name := fun hpp => objectPath_ne_temp hn ht hpp.symm
  rw [show (w.after s d c (.remove (s.place d.1.account d.1.name))).machine.disk.fileAt p = w.machine.disk.fileAt p from
    fileAt_serve hne]
  exact h.clean (fun hw => hs (struck_keep hw)) p hp ht

/-- `Delete` under the lock of its account. -/
theorem wp_deleteLocked (h : Locked s d w) (hop : d.1 = .delete d.1.account d.1.name) (hn : validateName d.1.name = .ok ()) :
    (callProtocol s opts d).wp (fun _ => Returning s d (.ok .deleted)) (fun e => Returning s d (.error e))
      (FSStore.deleteLocked d.1.account.id (s.place d.1.account d.1.name)) w := by
  unfold FSStore.deleteLocked
  refine wp_call stable_locked h (fun w h => ⟨h.owns, Or.inr ⟨hop, hn, rfl, h.undecided⟩⟩) (fun w c h hw hw' => ?_)
  cases hr : (serve c (.remove (s.place d.1.account d.1.name)) w.machine).1 with
  | ok u => exact wp_forgetDeleted (removed_after h hop hn (by rw [hr]; exact nofun)) hop
  | error e =>
    cases e with
    | notExist => exact wp_forgetDeleted (removed_after h hop hn (by rw [hr]; exact nofun)) hop
    | other =>
      have hserve := serve_remove (c := c) (hw.tidy.not_dir (s.filed_place d.1.account hn))
      have hf : c.fails = true := by
        cases hf : c.fails with
        | true => rfl
        | false =>
          rw [hserve, hf] at hr
          by_cases hnone : w.machine.disk.fileAt (s.place d.1.account d.1.name) = none
          · rw [if_neg Bool.false_ne_true, if_pos hnone] at hr
            cases hr
          · rw [if_neg Bool.false_ne_true, if_neg hnone] at hr
            cases hr
      have hnot : ¬ Deciding s d c (.remove (s.place d.1.account d.1.name)) w := by
        unfold Deciding
        rw [hop]
        rw [hop] at hr
        rw [hr]
        exact Bool.false_ne_true
      have hs : struck (w.after s d c (.remove (s.place d.1.account d.1.name))).spec.events := struck_after s hf
      refine wp_fail (stable_struck stable_locked) ⟨⟨owns_after h.owns rfl, cacheRight_keep h.cache hnot (fun h => h),
        fun hn => (hn hs).elim, ?_⟩, hs⟩ (fun w h => h.1.returning (Or.inr (Or.inr (Or.inr ⟨h.2, Or.inl ⟨_, _, rfl⟩⟩))))
      unfold Undecided
      rw [calls_after s hnot]
      exact h.undecided

theorem wp_Delete (h : Undecided d w) (hop : d.1 = .delete d.1.account d.1.name) :
    (callProtocol s opts d).wp (fun a => Settled s d (deleteOutcome (.ok a))) (fun e => Settled s d (deleteOutcome (.error e)))
      (s.Delete d.1.account.id d.1.name) w := by
  unfold FSStore.Delete
  refine wp_validName (fun e => deleteOutcome (.error e)) h (fun _ => rfl) (fun hn => ?_)
  refine wp_alive stable_undecided h (fun w h hg => Or.inr ⟨h, Or.inr (Or.inr (Or.inl ⟨hg, rfl⟩))⟩) (fun w h => ?_)
  show (callProtocol s opts d).wp _ _ ((s.path d.1.account.id d.1.name).bind _) w
  rw [path_bind hn]
  refine wp_lock h (fun w h => ?_)
  have hattempt : (callProtocol s opts d).wp (fun r => Returning s d (deleteOutcome r))
      (fun e => Settled s d (deleteOutcome (.error e)))
      (Fs.attempt (FSStore.deleteLocked d.1.account.id (s.place d.1.account d.1.name))) w :=
    wp_attempt (fun r => stable_returning _) (wp_deleteLocked h hop hn)
  exact Protocol.wp_bind (Protocol.wp_mono hattempt (fun r w h => wp_unlock deleteOutcome h) (fun _ _ hx => hx))

end Whole

end Calls

end Server

end EasyDocket
