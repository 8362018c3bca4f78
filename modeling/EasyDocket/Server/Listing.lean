import EasyDocket.Server.Measuring

/-!
# Listing an account

The rules of one page, of following the pages of a listing, and of what a client does to list, over any protocol under
which files are read: pages are ordered, and together they have every file that was there throughout, unless a file was
gone when it was asked for its size.
-/

namespace EasyDocket

namespace Server

open FSStore (Object Listing)

/-! ## Names and their files -/

section Names

variable {s : FSStore} {a : Account}

theorem length_place (a : Account) {name : GoString} (hn : validateName name = .ok ()) :
    (s.place a name).length = s.base.length + 5 := (s.filed_place a hn).length

theorem place_injective (a : Account) : Function.Injective (s.place a) := fun _ _ h => (objectPath_injective s.base h).2

/-- The name that `List` reads off a path. -/
theorem name_of_place (name : GoString) : joinSlash ((s.place a name).drop (s.home a).length) = name := by
  have hplace : s.place a name = s.home a ++ splitSlash name := by
    unfold FSStore.place FSStore.home objectPath
    simp
  rw [hplace, List.drop_left, joinSlash_splitSlash]

theorem not_temp_place {name : GoString} (hn : validateName name = .ok ()) : ¬ IsTemp ((s.place a name).getLastD []) :=
  fun ht => objectPath_ne_temp hn ht rfl

/-- A file in the directory of an account is an object, or temporary. -/
theorem place_or_temp {p : Path} (hp : s.home a <+: p) (hf : Filed s.base p) :
    (∃ name, validateName name = .ok () ∧ p = s.place a name) ∨ IsTemp (p.getLastD []) := by
  obtain ⟨account, rest, ha, rfl, hlen, ⟨name, hn, rfl⟩ | htemp⟩ := hf
  · obtain ⟨x, hx⟩ := hp
    unfold FSStore.home at hx
    rw [List.append_assoc] at hx
    have hid : account = a.id := (List.cons.inj (List.append_cancel_left hx)).1.symm
    exact Or.inl ⟨name, hn, by rw [hid]; rfl⟩
  · have hne : rest ≠ [] := fun h => absurd hlen (by rw [h]; decide)
    rw [← getLastD_append_cons s.base account hne] at htemp
    exact Or.inr htemp

theorem validateName_nil : validateName [] ≠ .ok () := by decide +kernel

end Names

/-! ## Pages -/

section Pages

variable (s : FSStore) (a : Account) (sized : Path → ℕ → Prop) (pre : GoString)

/-- An object that may be listed. -/
structure Listable (o : Object) : Prop where
  valid : validateName o.name = .ok ()
  start : pre <+: o.name
  size : sized (s.place a o.name) o.size

/-- What a page after `cursor` is, if `kept` are the files that are there. -/
structure Page (kept : Path → Prop) (cursor : GoString) (l : Listing) : Prop where
  sorted : l.objects.Pairwise (fun x y => x.name < y.name)
  listable : ∀ o ∈ l.objects, Listable s a sized pre o
  after : ∀ o ∈ l.objects, cursor < o.name
  next : l.nextCursor ≠ [] → (∃ o ∈ l.objects, o.name = l.nextCursor) ∧ ∀ o ∈ l.objects, o.name ≤ l.nextCursor
  covers : ∀ name, validateName name = .ok () → pre <+: name → cursor < name → (l.nextCursor ≠ [] → name ≤ l.nextCursor) →
    kept (s.place a name) → name ∈ l.objects.map Object.name

/-- What has been gathered of the names that are `upto`. -/
structure Gathered (kept : Path → Prop) (upto : GoString → Prop) (objects : List Object) : Prop where
  sorted : objects.Pairwise (fun x y => x.name < y.name)
  listable : ∀ o ∈ objects, Listable s a sized pre o
  before : ∀ o ∈ objects, upto o.name
  covers : ∀ name, validateName name = .ok () → pre <+: name → upto name → kept (s.place a name) →
    name ∈ objects.map Object.name

variable {s a sized pre} {kept kept' : Path → Prop} {cursor : GoString} {objects : List Object} {l : Listing}

theorem Page.mono (h : Page s a sized pre kept cursor l) (hk : ∀ q, kept' q → kept q) : Page s a sized pre kept' cursor l :=
  ⟨h.sorted, h.listable, h.after, h.next, fun name hn hp hc hl hkept => h.covers name hn hp hc hl (hk _ hkept)⟩

theorem Gathered.mono {upto : GoString → Prop} (h : Gathered s a sized pre kept upto objects) (hk : ∀ q, kept' q → kept q) :
    Gathered s a sized pre kept' upto objects :=
  ⟨h.sorted, h.listable, h.before, fun name hn hp hu hkept => h.covers name hn hp hu (hk _ hkept)⟩

theorem gathered_nil : Gathered s a sized pre kept (· ≤ []) [] := by
  refine ⟨List.Pairwise.nil, nofun, nofun, fun name hn _ hle => ?_⟩
  cases name with
  | nil => exact absurd hn validateName_nil
  | cons c rest => exact absurd hle (not_le.mpr (List.nil_lt_cons c rest))

theorem sorted_append (hG : Gathered s a sized pre kept (· ≤ cursor) objects) (hP : Page s a sized pre kept cursor l) :
    (objects ++ l.objects).Pairwise (fun x y => x.name < y.name) :=
  List.pairwise_append.mpr ⟨hG.sorted, hP.sorted, fun x hx y hy => lt_of_le_of_lt (hG.before x hx) (hP.after y hy)⟩

theorem mem_names_append {name : GoString}
    (h : name ∈ objects.map Object.name ∨ name ∈ l.objects.map Object.name) :
    name ∈ (objects ++ l.objects).map Object.name := by
  rw [List.map_append]
  exact List.mem_append.mpr h

/-- The last page completes what has been gathered. -/
theorem Gathered.last (hG : Gathered s a sized pre kept (· ≤ cursor) objects) (hP : Page s a sized pre kept cursor l)
    (hnext : l.nextCursor = []) : Gathered s a sized pre kept (fun _ => True) (objects ++ l.objects) := by
  refine ⟨sorted_append hG hP, fun o ho => ?_, fun _ _ => trivial, fun name hn hp _ hk => mem_names_append ?_⟩
  · exact (List.mem_append.mp ho).elim (hG.listable o) (hP.listable o)
  · rcases le_or_gt name cursor with hle | hlt
    · exact Or.inl (hG.covers name hn hp hle hk)
    · exact Or.inr (hP.covers name hn hp hlt (fun h => absurd hnext h) hk)

/-- Any other page adds to what has been gathered. -/
theorem Gathered.more (hG : Gathered s a sized pre kept (· ≤ cursor) objects) (hP : Page s a sized pre kept cursor l)
    (hnext : l.nextCursor ≠ []) : Gathered s a sized pre kept (· ≤ l.nextCursor) (objects ++ l.objects) ∧
      objects.length < (objects ++ l.objects).length := by
  obtain ⟨⟨o, ho, hlast⟩, hle⟩ := hP.next hnext
  have hcursor : cursor ≤ l.nextCursor := hlast ▸ (hP.after o ho).le
  refine ⟨⟨sorted_append hG hP, fun o ho => ?_, fun o ho => ?_, fun name hn hp hu hk => mem_names_append ?_⟩, ?_⟩
  · exact (List.mem_append.mp ho).elim (hG.listable o) (hP.listable o)
  · exact (List.mem_append.mp ho).elim (fun h => (hG.before o h).trans hcursor) (hle o)
  · rcases le_or_gt name cursor with hle | hlt
    · exact Or.inl (hG.covers name hn hp hle hk)
    · exact Or.inr (hP.covers name hn hp hlt (fun _ => hu) hk)
  · have := List.length_pos_of_mem ho
    rw [List.length_append]
    omega

/-! ### The pages of a walk -/

variable (s a sized pre)

/-- How the objects of a walk come from the files visited. -/
structure Gathers (cursor : GoString) (objects : List Object) (visited : List Path) : Prop where
  listable : ∀ o ∈ objects, Listable s a sized pre o
  after : ∀ o ∈ objects, cursor < o.name
  seen : ∀ o ∈ objects, s.place a o.name ∈ visited
  nodup : (objects.map Object.name).Nodup
  all : ∀ name, validateName name = .ok () → pre <+: name → cursor < name → s.place a name ∈ visited →
    name ∈ objects.map Object.name

variable {s a sized pre} {visited : List Path} {limit : ℕ}

theorem gathers_nil : Gathers s a sized pre cursor [] [] :=
  ⟨nofun, nofun, nofun, List.nodup_nil, fun _ _ _ _ h => absurd h List.not_mem_nil⟩

/-- A file that is not listed. -/
theorem Gathers.skip (h : Gathers s a sized pre cursor objects visited) {p : Path}
    (hp : ∀ name, validateName name = .ok () → p = s.place a name → ¬ (pre <+: name ∧ cursor < name)) :
    Gathers s a sized pre cursor objects (visited ++ [p]) := by
  refine ⟨h.listable, h.after, fun o ho => List.mem_append_left _ (h.seen o ho), h.nodup, fun name hn hpre hc hm => ?_⟩
  rcases List.mem_append.mp hm with hm | hm
  · exact h.all name hn hpre hc hm
  · exact absurd ⟨hpre, hc⟩ (hp name hn (List.mem_singleton.mp hm).symm)

/-- A file that is listed. -/
theorem Gathers.add (h : Gathers s a sized pre cursor objects visited) {name : GoString} {size : ℕ}
    (hn : validateName name = .ok ()) (hpre : pre <+: name) (hc : cursor < name) (hs : sized (s.place a name) size)
    (hnew : s.place a name ∉ visited) :
    Gathers s a sized pre cursor (objects ++ [⟨name, size⟩]) (visited ++ [s.place a name]) where
  listable := by
    intro o ho
    rcases List.mem_append.mp ho with ho | ho
    · exact h.listable o ho
    · cases List.mem_singleton.mp ho
      exact ⟨hn, hpre, hs⟩
  after := by
    intro o ho
    rcases List.mem_append.mp ho with ho | ho
    · exact h.after o ho
    · cases List.mem_singleton.mp ho
      exact hc
  seen := by
    intro o ho
    rcases List.mem_append.mp ho with ho | ho
    · exact List.mem_append_left _ (h.seen o ho)
    · cases List.mem_singleton.mp ho
      exact List.mem_append_right _ (List.mem_singleton_self _)
  nodup := by
    rw [List.map_append]
    refine List.nodup_append.mpr ⟨h.nodup, List.nodup_singleton _, fun x hx y hy hxy => ?_⟩
    obtain ⟨o, ho, rfl⟩ := List.mem_map.mp hx
    have hname : o.name = name := hxy.trans (List.mem_singleton.mp hy)
    exact hnew (hname ▸ h.seen o ho)
  all := by
    intro other ho hp hco hm
    rw [List.map_append]
    rcases List.mem_append.mp hm with hm | hm
    · exact List.mem_append_left _ (h.all other ho hp hco hm)
    · rw [place_injective a (List.mem_singleton.mp hm)]
      exact List.mem_append_right _ (List.mem_singleton_self _)

theorem sorted_objects (h : (objects.map Object.name).Nodup) :
    (objects.insertionSort (fun x y => x.name ≤ y.name)).Pairwise (fun x y => x.name < y.name) := by
  have hle := List.pairwise_insertionSort (fun x y : Object => x.name ≤ y.name) objects
  have hne : (objects.insertionSort (fun x y => x.name ≤ y.name)).Pairwise (fun x y => x.name ≠ y.name) :=
    List.pairwise_map.mp (((List.perm_insertionSort _ objects).map Object.name).nodup_iff.mpr h)
  exact (hle.and hne).imp (fun hxy => lt_of_le_of_ne hxy.1 hxy.2)

/-- The first page of what a walk has come to. -/
theorem Gathers.page (h : Gathers s a sized pre cursor objects visited) (hlimit : 1 ≤ limit)
    (hall : ∀ name, validateName name = .ok () → kept (s.place a name) → s.place a name ∈ visited) :
    Page s a sized pre kept cursor (FSStore.pageOf limit objects) := by
  have hmem : ∀ o, o ∈ objects.insertionSort (fun x y => x.name ≤ y.name) ↔ o ∈ objects :=
    fun o => (List.perm_insertionSort _ objects).mem_iff
  have hsorted := sorted_objects h.nodup
  have hnames : ∀ name, validateName name = .ok () → pre <+: name → cursor < name → kept (s.place a name) →
      ∃ o ∈ objects.insertionSort (fun x y => x.name ≤ y.name), o.name = name := by
    intro name hn hp hc hk
    obtain ⟨o, ho, hname⟩ := List.mem_map.mp (h.all name hn hp hc (hall name hn hk))
    exact ⟨o, (hmem o).mpr ho, hname⟩
  unfold FSStore.pageOf
  generalize objects.insertionSort (fun x y => x.name ≤ y.name) = sorted at hmem hsorted hnames
  by_cases hlt : limit < sorted.length
  · obtain ⟨x, hx⟩ : ∃ x, sorted[limit - 1]? = some x := ⟨_, List.getElem?_eq_getElem (by omega)⟩
    have hsplit : sorted.take limit = sorted.take (limit - 1) ++ [x] := by
      rw [show limit = limit - 1 + 1 by omega, List.take_add_one, Nat.add_sub_cancel, hx]
      rfl
    have hxmem : x ∈ sorted.take limit := by rw [hsplit]; simp
    have hxname : x.name ≠ [] := by
      intro hnil
      have := h.after x ((hmem x).mp (List.mem_of_mem_take hxmem))
      rw [hnil] at this
      exact List.not_lt_nil _ this
    have hparts : (sorted.take limit ++ sorted.drop limit).Pairwise (fun x y => x.name < y.name) := by
      rwa [List.take_append_drop]
    simp only [hlt, if_true, hx, Option.map_some, Option.getD_some]
    refine ⟨hsorted.sublist (List.take_sublist _ _), fun o ho => h.listable o ((hmem o).mp (List.mem_of_mem_take ho)),
      fun o ho => h.after o ((hmem o).mp (List.mem_of_mem_take ho)), fun _ => ⟨⟨x, hxmem, rfl⟩, fun o ho => ?_⟩,
      fun name hn hp hc hnext hk => ?_⟩
    · have htake := (List.pairwise_append.mp hparts).1
      simp only [hsplit] at ho htake
      rcases List.mem_append.mp ho with ho | ho
      · exact ((List.pairwise_append.mp htake).2.2 o ho x (List.mem_singleton_self x)).le
      · rw [List.mem_singleton.mp ho]
    · obtain ⟨o, ho, rfl⟩ := hnames name hn hp hc hk
      rw [← List.take_append_drop limit sorted] at ho
      rcases List.mem_append.mp ho with ho | ho
      · exact List.mem_map_of_mem ho
      · exact absurd ((List.pairwise_append.mp hparts).2.2 x hxmem o ho) (not_lt.mpr (hnext hxname))
  · simp only [hlt, if_false]
    refine ⟨hsorted, fun o ho => h.listable o ((hmem o).mp ho), fun o ho => h.after o ((hmem o).mp ho),
      fun hne => absurd rfl hne, fun name hn hp hc _ hk => ?_⟩
    obtain ⟨o, ho, rfl⟩ := hnames name hn hp hc hk
    exact List.mem_map_of_mem ho

end Pages

/-! ## Rules -/

/-- Under a protocol the files of an account can be read: why a walk for a listing may be stopped, and what is found to
be the size of a file. -/
structure Reads {S : Type} (P : Protocol FsRequest FsRequest.Reply StoreError S) (V : View S) (I : S → Prop)
    (failed : WalkError → S → Prop) (s : FSStore) (a : Account) (sized : Path → ℕ → Prop) : Prop where
  fits : V.Fits P I
  real : ∀ p, V.real p → s.home a <+: p ∧ Filed s.base p
  limit : V.limit = s.base.length + 5
  lasts : ∀ e, P.Stable (failed e)
  keeps : ∀ e q w r w', P.step q w r w' → failed e w → failed e w'
  unread : ∀ e w, V.failed e w → e ≠ .notExist ∧ failed (.fs e) w
  may : ∀ w, I w → P.pre .ctxErr w ∧ P.pre (.lstat (s.home a)) w ∧ ∀ p, P.pre (.info p) w
  alive : ∀ w r w', I w → P.step .ctxErr w r w' → I w' ∧ ∃ b, r = .ok b ∧ (b = true → failed .canceled w')
  info : ∀ p w r w', I w → V.real p → P.step (.info p) w r w' → I w' ∧ ∃ reply, r = .ok reply ∧
    (∀ i, reply = .ok i → sized p i.size) ∧ ∀ e, reply = .error e → failed (.fs e) w'
  stat : ∀ w r w', I w → P.step (.lstat (s.home a)) w r w' → I w' ∧ ∃ reply, r = .ok reply ∧
    (∀ i, reply = .ok i → i.isDir = true ∧ V.there w' (s.home a)) ∧
    ∀ e, reply = .error e → V.failed e w' ∨ (e = .notExist ∧ ∀ q, V.kept w' q → ¬ s.home a <+: q)

section Rules

variable {S : Type} {P : Protocol FsRequest FsRequest.Reply StoreError S} {V : View S} {I : S → Prop}
  {failed : WalkError → S → Prop} {s : FSStore} {a : Account} {sized : Path → ℕ → Prop} {X : StoreError → S → Prop}
  {pre cursor : GoString} {w : S}

/-- A walk for a listing is stopped. -/
def Halted (I : S → Prop) (failed : WalkError → S → Prop) (v : Visit (List Object)) (w : S) : Prop :=
  (∃ e objects, v = .fail e objects ∧ failed e w) ∧ I w

/-- What the function of `List` does at a file. -/
def listFile (pre cursor : GoString) (home p : Path) (objects : List Object) : Fs (Visit (List Object)) :=
  if ¬ pre <+: joinSlash (p.drop home.length) ∨ joinSlash (p.drop home.length) ≤ cursor then pure (.next objects)
  else (Fs.ask (.info p)).bind (fun r => match r with
    | .error e => pure (.fail (.fs e) objects)
    | .ok info => pure (.next (objects ++ [⟨joinSlash (p.drop home.length), info.size⟩])))

theorem listFn_eq (home : Path) (objects : List Object) (p : Path) (d : Entry) :
    FSStore.listFn home pre cursor objects p d none = (Fs.ask .ctxErr).bind (fun (b : Bool) =>
      if b = true then pure (.fail .canceled objects)
      else if d.isDir = true ∨ IsTemp d.name then pure (.next objects) else listFile pre cursor home p objects) := by
  unfold FSStore.listFn listFile
  refine congrArg (Prog.bind (Fs.ask .ctxErr)) (funext (fun b => ?_))
  have hcond : (d.isDir || (go ".tmp-").isPrefixOf d.name) = true ↔ d.isDir = true ∨ IsTemp d.name := by
    rw [Bool.or_eq_true, List.isPrefixOf_iff_prefix]
    rfl
  simp only [hcond]
  rfl

theorem Reads.stable (hR : Reads P V I failed s a sized) : P.Stable I := hR.fits.stable

theorem wp_halted (hR : Reads P V I failed s a sized) {e : WalkError} {objects : List Object}
    {post : Visit (List Object) → S → Prop} (hpost : ∀ w, Halted I failed (.fail e objects) w → post (.fail e objects) w)
    (h : I w) (hf : failed e w) : P.wp post X (.pure (.fail e objects)) w := fun w' hw' =>
  hpost w' ⟨⟨e, objects, rfl, hR.lasts e w w' hf hw'⟩, hR.stable w w' h hw'⟩

/-- The question whether the context is done. -/
theorem wp_walkAlive (hR : Reads P V I failed s a sized) {objects : List Object} {f : Fs (Visit (List Object))}
    {post : Visit (List Object) → S → Prop} (hpost : ∀ v w, Halted I failed v w → post v w) (h : I w)
    (hok : ∀ w, I w → P.wp post X f w) :
    P.wp post X ((Fs.ask .ctxErr).bind (fun (b : Bool) => if b = true then pure (.fail .canceled objects) else f)) w := by
  refine Protocol.wp_request_served hR.stable h (fun w hw => (hR.may w hw).1) (fun w₁ r w₂ h₁ hstep => ?_)
  obtain ⟨h₂, b, rfl, hb⟩ := hR.alive w₁ r w₂ h₁ hstep
  refine ⟨b, rfl, ?_⟩
  cases b with
  | true => exact wp_halted hR (hpost _) h₂ (hb rfl)
  | false => exact hok w₂ h₂

/-- The function of `List` visits the files of an account. -/
theorem visits_list (hR : Reads P V I failed s a sized) : Visits P V I (Gathers s a sized pre cursor) (Halted I failed) X
    (FSStore.listFn (s.home a) pre cursor) where
  stop := by
    rintro v w w' ⟨⟨e, objects, rfl, hf⟩, h⟩ hw'
    exact ⟨⟨e, objects, rfl, hR.lasts e w w' hf hw'⟩, hR.stable w w' h hw'⟩
  stopped := by
    rintro objects w ⟨⟨e, objects', h, -⟩, -⟩
    cases h
  dir := by
    intro objects p d w hd h
    rw [listFn_eq]
    refine wp_walkAlive hR (fun _ _ hh => Or.inr hh) h (fun w h => ?_)
    rw [if_pos (Or.inl hd)]
    exact Protocol.wp_pure hR.stable h (fun w h => Or.inl ⟨rfl, h⟩)
  file := by
    intro objects visited p d w hd hname hreal hnew hJ h
    rw [listFn_eq]
    refine wp_walkAlive hR (fun _ _ hh => Or.inr hh) h (fun w h => ?_)
    obtain ⟨hpre, hfiled⟩ := hR.real p hreal
    have hskip : ∀ w, I w → Gathers s a sized pre cursor objects (visited ++ [p]) →
        P.wp (fun v w' => (∃ acc', v = .next acc' ∧ Gathers s a sized pre cursor acc' (visited ++ [p]) ∧ I w') ∨
          Halted I failed v w') X (.pure (.next objects)) w := fun w h hJ =>
      Protocol.wp_pure hR.stable h (fun w h => Or.inl ⟨objects, rfl, hJ, h⟩)
    rcases place_or_temp hpre hfiled with ⟨name, hn, rfl⟩ | htemp
    · have hnot : ¬ (d.isDir = true ∨ IsTemp d.name) := by
        rintro (hdir | htemp)
        · exact absurd (hd.symm.trans hdir) (by decide)
        · exact not_temp_place hn (hname ▸ htemp)
      rw [if_neg hnot]
      unfold listFile
      rw [name_of_place]
      by_cases hout : ¬ pre <+: name ∨ name ≤ cursor
      · rw [if_pos hout]
        refine hskip w h (hJ.skip (fun other _ heq hin => ?_))
        rw [← place_injective a heq] at hin
        exact hout.elim (fun hno => hno hin.1) (fun hle => absurd hin.2 (not_lt.mpr hle))
      · rw [if_neg hout]
        obtain ⟨hstart, hafter⟩ := not_or.mp hout
        refine Protocol.wp_request_served hR.stable h (fun w hw => (hR.may w hw).2.2 _) (fun w₁ r w₂ h₁ hstep => ?_)
        obtain ⟨h₂, reply, rfl, hok, herror⟩ := hR.info _ w₁ r w₂ h₁ hreal hstep
        refine ⟨reply, rfl, ?_⟩
        cases reply with
        | error e => exact wp_halted hR (fun _ hh => Or.inr hh) h₂ (herror e rfl)
        | ok i =>
          exact Protocol.wp_pure hR.stable h₂ (fun w h => Or.inl ⟨_, rfl,
            hJ.add hn (not_not.mp hstart) (not_le.mp hafter) (hok i rfl) hnew, h⟩)
    · rw [if_pos (Or.inr (hname ▸ htemp))]
      exact hskip w h (hJ.skip (fun name hn heq => absurd (heq ▸ htemp) (not_temp_place hn)))
  failed := by
    intro objects p d e w hf h
    obtain ⟨hne, hfailed⟩ := hR.unread e w hf
    have hfn : FSStore.listFn (s.home a) pre cursor objects p d (some e) = pure (.fail (.fs e) objects) := by
      cases e with
      | notExist => exact absurd rfl hne
      | other => rfl
    rw [hfn]
    exact wp_halted hR (fun _ hh => hh) h hfailed

/-- What a page comes to: it is one, or a file was gone. -/
def Paged (V : View S) (I : S → Prop) (failed : WalkError → S → Prop) (s : FSStore) (a : Account) (sized : Path → ℕ → Prop)
    (pre cursor : GoString) (l : Listing) (w : S) : Prop :=
  I w ∧ (Page s a sized pre (V.kept w) cursor l ∨ failed (.fs .notExist) w)

theorem Reads.stable_paged (hR : Reads P V I failed s a sized) (l : Listing) :
    P.Stable (Paged V I failed s a sized pre cursor l) := fun w w' h hw' =>
  ⟨hR.stable w w' h.1 hw', h.2.imp (fun hp => hp.mono (hR.fits.rely hw').1) (fun hf => hR.lasts _ w w' hf hw')⟩

/-- The rule of `List`. -/
theorem wp_List (hR : Reads P V I failed s a sized) (hX : ∀ e e' w, I w → failed e' w → e' ≠ .fs .notExist → X e w)
    (hinvalid : ∀ fault w, validatePrefix pre = .error fault → I w → X (.invalidName fault) w) (h : I w) (limit : ℤ) :
    P.wp (Paged V I failed s a sized pre cursor) X (s.List a.id pre cursor limit) w := by
  unfold FSStore.List FSStore.validPrefix
  cases hv : validatePrefix pre with
  | error fault => exact fun w' hw' => hinvalid fault w' hv (hR.stable w w' h hw')
  | ok u =>
    simp only [s.path_home, Prog.pure_def, Prog.bind_def, Prog.pure_bind]
    have hone : 1 ≤ if limit ≤ 0 then 1000 else limit.toNat := by
      split_ifs <;> omega
    have hdeep := s.deep
    have hhome := length_home (s := s) a
    have hlimit : V.limit < (s.home a).length + s.depth := by
      rw [hR.limit]
      omega
    have hshort : (s.home a).length ≤ V.limit := by
      rw [hR.limit]
      omega
    have hroot : ∀ name, validateName name = .ok () → s.home a <+: s.place a name ∧ s.home a ≠ s.place a name := by
      refine fun name hn => ⟨s.home_prefix_place a name, fun heq => ?_⟩
      have := length_place (s := s) a hn
      rw [← heq] at this
      omega
    have hpage : ∀ objects visited w, Gathers s a sized pre cursor objects visited → I w →
        (∀ name, validateName name = .ok () → V.kept w (s.place a name) → s.place a name ∈ visited) →
        P.wp (Paged V I failed s a sized pre cursor) X
          (.pure (FSStore.pageOf (if limit ≤ 0 then 1000 else limit.toNat) objects)) w := by
      intro objects visited w hJ h hall w' hw'
      exact hR.stable_paged _ w w' ⟨h, Or.inl (hJ.page hone hall)⟩ hw'
    refine Protocol.wp_bind (Protocol.wp_mono (wp_WalkDir hR.fits (visits_list hR) hlimit hshort gathers_nil h
      (fun w hw => (hR.may w hw).2.1) hR.stat rfl) (fun v w₁ h₁ => ?_) (fun _ _ hx => hx))
    rcases h₁ with (⟨objects, new, rfl, hJ, hI, -, hcover⟩ | ⟨⟨e, objects, rfl, hf⟩, hI⟩) | ⟨rfl, hI, hnone⟩
    · exact hpage objects new w₁ hJ hI (fun name hn hk => hcover _ hk (hroot name hn))
    · by_cases he : e = .fs .notExist
      · show P.wp _ X (Prog.bind (if e = .fs .notExist then pure objects else throw (.storage (go "list") e)) _) w₁
        rw [if_pos he]
        exact fun w' hw' => hR.stable_paged _ w₁ w' ⟨hI, Or.inr (he ▸ hf)⟩ hw'
      · show P.wp _ X (Prog.bind (if e = .fs .notExist then pure objects else throw (.storage (go "list") e)) _) w₁
        rw [if_neg he]
        exact fun w' hw' => hX _ e w' (hR.stable w₁ w' hI hw') (hR.lasts e w₁ w' hf hw') he
    · exact hpage [] [] w₁ gathers_nil hI (fun name hn hk => absurd (hroot name hn).1 (hnone _ hk))

/-- What following a listing has come to. -/
def Followed (V : View S) (I : S → Prop) (failed : WalkError → S → Prop) (s : FSStore) (a : Account)
    (sized : Path → ℕ → Prop) (pre : GoString) (upto : GoString → Prop) (objects : List Object) (w : S) : Prop :=
  I w ∧ (Gathered s a sized pre (V.kept w) upto objects ∨ failed (.fs .notExist) w)

theorem Reads.stable_followed (hR : Reads P V I failed s a sized) {upto : GoString → Prop} {objects : List Object} :
    P.Stable (Followed V I failed s a sized pre upto objects) := fun w w' h hw' =>
  ⟨hR.stable w w' h.1 hw', h.2.imp (fun hp => hp.mono (hR.fits.rely hw').1) (fun hf => hR.lasts _ w w' hf hw')⟩

/-- What is being followed: `start` pages were allowed, and each has added an object. -/
def Following (V : View S) (I : S → Prop) (failed : WalkError → S → Prop) (s : FSStore) (a : Account)
    (sized : Path → ℕ → Prop) (pre : GoString) (start pages : ℕ) (cursor : GoString) (objects : List Object) (w : S) : Prop :=
  I w ∧ ((Gathered s a sized pre (V.kept w) (· ≤ cursor) objects ∧ start ≤ pages + objects.length) ∨ failed (.fs .notExist) w)

theorem following_start (pages : ℕ) (h : I w) : Following V I failed s a sized pre pages pages [] [] w :=
  ⟨h, Or.inl ⟨gathered_nil, le_refl _⟩⟩

variable {start pages : ℕ} {objects : List Object} {w' : S} {l : Listing}

theorem Reads.stable_following (hR : Reads P V I failed s a sized) :
    P.Stable (Following V I failed s a sized pre start pages cursor objects) := fun w w' h hw' =>
  ⟨hR.stable w w' h.1 hw', h.2.imp (And.imp_left (fun hp => hp.mono (hR.fits.rely hw').1)) (fun hf => hR.lasts _ w w' hf hw')⟩

/-- What a request for a page leaves of what was followed before. -/
def Onward (V : View S) (failed : WalkError → S → Prop) (w w' : S) : Prop :=
  V.Since w w' ∧ (failed (.fs .notExist) w → failed (.fs .notExist) w')

theorem wp_onward (hR : Reads P V I failed s a sized) {γ : Type} {p : Fs γ} {post : γ → S → Prop} (h : P.wp post X p w) :
    P.wp (fun x w' => post x w' ∧ Onward V failed w w') X p w :=
  Protocol.wp_mono (Protocol.wp_since (R := Onward V failed) (fun _ => ⟨View.Since.refl V _, id⟩)
    (fun h h' => ⟨h.1.trans h'.1, h'.2 ∘ h.2⟩) (fun h => ⟨hR.fits.rely h, fun hf => hR.lasts _ _ _ hf h⟩)
    (fun h => ⟨hR.fits.step h, hR.keeps _ _ _ _ _ h⟩) h) (fun _ _ h => h) (fun _ _ h => h.1)

/-- The step lemma of following: the last page, or one more. -/
theorem Following.page (hf : Following V I failed s a sized pre start (pages + 1) cursor objects w)
    (hP : Paged V I failed s a sized pre cursor l w') (ho : Onward V failed w w') :
    (l.nextCursor = [] → Followed V I failed s a sized pre (fun _ => True) (objects ++ l.objects) w') ∧
      (l.nextCursor ≠ [] → Following V I failed s a sized pre start pages l.nextCursor (objects ++ l.objects) w') := by
  obtain ⟨hI, hpage | hgone⟩ := hP
  · rcases hf.2 with ⟨hG, hlen⟩ | hgone
    · have hG := hG.mono ho.1.1
      refine ⟨fun hnext => ⟨hI, Or.inl (hG.last hpage hnext)⟩, fun hnext => ?_⟩
      obtain ⟨hmore, hlonger⟩ := hG.more hpage hnext
      exact ⟨hI, Or.inl ⟨hmore, by omega⟩⟩
    · exact ⟨fun _ => ⟨hI, Or.inr (ho.2 hgone)⟩, fun _ => ⟨hI, Or.inr (ho.2 hgone)⟩⟩
  · exact ⟨fun _ => ⟨hI, Or.inr hgone⟩, fun _ => ⟨hI, Or.inr hgone⟩⟩

/-- The rule of following the pages of a listing, by induction on the pages that are left. -/
theorem wp_followPages (hR : Reads P V I failed s a sized) {page : GoString → Fs Listing}
    (hpage : ∀ cursor w, I w → P.wp (Paged V I failed s a sized pre cursor) X (page cursor) w)
    (hend : ∀ cursor objects w, Following V I failed s a sized pre start 0 cursor objects w → X .endless w) :
    ∀ (pages : ℕ) (cursor : GoString) (objects : List Object) (w : S),
      Following V I failed s a sized pre start pages cursor objects w →
      P.wp (Followed V I failed s a sized pre (fun _ => True)) X (followPages page pages cursor objects) w := by
  intro pages
  induction pages with
  | zero => exact fun cursor objects w h w' hw' => hend cursor objects w' (hR.stable_following w w' h hw')
  | succ pages ih =>
    intro cursor objects w h
    unfold followPages
    refine Protocol.wp_bind (Protocol.wp_mono (wp_onward hR (hpage cursor w h.1)) (fun l w₁ h₁ => ?_) (fun _ _ hx => hx))
    obtain ⟨hlast, hmore⟩ := h.page h₁.1 h₁.2
    by_cases hnext : l.nextCursor = []
    · rw [if_pos hnext]
      exact fun w' hw' => hR.stable_followed w₁ w' (hlast hnext) hw'
    · rw [if_neg hnext]
      exact ih l.nextCursor (objects ++ l.objects) w₁ (hmore hnext)

/-! ### What the client does -/

/-- What the client makes of a page. -/
def Fetched (V : View S) (I : S → Prop) (failed : WalkError → S → Prop) (s : FSStore) (a : Account)
    (sized : Path → ℕ → Prop) (X : StoreError → S → Prop) (pre cursor : GoString) (sent : Sent) (w : S) : Prop :=
  match listingOf sent with
  | .ok l => Paged V I failed s a sized pre cursor l w
  | .error _ => ∃ e, X e w

theorem listingOf_error (opts : Options) (e : StoreError) : ∃ status, listingOf (writeStoreError opts e) = .error status := by
  cases e with
  | storage step e => cases e <;> exact ⟨_, rfl⟩
  | _ => exact ⟨_, rfl⟩

/-- The rule of `handleList`, asked for a page without a limit. -/
theorem wp_handleList (hR : Reads P V I failed s a sized) (opts : Options) (hXs : ∀ e, P.Stable (X e))
    (hlist : P.wp (Paged V I failed s a sized pre cursor) X (s.List a.id pre cursor 1000) w) :
    P.wp (Fetched V I failed s a sized X pre cursor) X (handleList s opts a.id pre cursor []) w := by
  have hattempt : P.wp (fun r w => match r with | .ok l => Paged V I failed s a sized pre cursor l w | .error e => X e w) X
      (Fs.attempt (s.List a.id pre cursor 1000)) w := by
    refine wp_attempt (fun r => ?_) hlist
    cases r with
    | ok l => exact hR.stable_paged l
    | error e => exact hXs e
  show P.wp _ X (respond opts (s.List a.id pre cursor 1000) _) w
  unfold respond
  refine Protocol.wp_bind (Protocol.wp_mono hattempt (fun r w₁ h₁ => ?_) (fun _ _ hx => hx))
  cases r with
  | ok l => exact fun w' hw' => hR.stable_paged l w₁ w' h₁ hw'
  | error e =>
    have hsent : ∀ w', P.rely w₁ w' → Fetched V I failed s a sized X pre cursor (writeStoreError opts e) w' := by
      intro w' hw'
      obtain ⟨status, hstatus⟩ := listingOf_error opts e
      unfold Fetched
      rw [hstatus]
      exact ⟨e, hXs e w₁ w' h₁ hw'⟩
    cases e with
    | endless => exact fun w' hw' => hXs _ w₁ w' h₁ hw'
    | _ => exact hsent

/-- The rule of the client's listing. -/
theorem wp_fetchPages (hR : Reads P V I failed s a sized) (opts : Options) (hXs : ∀ e, P.Stable (X e))
    (hlist : ∀ cursor w, I w → P.wp (Paged V I failed s a sized pre cursor) X (s.List a.id pre cursor 1000) w)
    (hend : ∀ cursor objects w, Following V I failed s a sized pre start 0 cursor objects w → X .endless w) :
    ∀ (pages : ℕ) (cursor : GoString) (objects : List Object) (w : S),
      Following V I failed s a sized pre start pages cursor objects w →
      P.wp (fun r w => match r with
        | .ok objects => Followed V I failed s a sized pre (fun _ => True) objects w
        | .error _ => ∃ e, X e w) X (fetchPages s opts a.id pre pages cursor objects) w := by
  intro pages
  induction pages with
  | zero => exact fun cursor objects w h w' hw' => hend cursor objects w' (hR.stable_following w w' h hw')
  | succ pages ih =>
    intro cursor objects w h
    unfold fetchPages
    refine Protocol.wp_bind (Protocol.wp_mono (wp_onward hR (wp_handleList hR opts hXs (hlist cursor w h.1)))
      (fun sent w₁ h₁ => ?_) (fun _ _ hx => hx))
    obtain ⟨hsent, ho⟩ := h₁
    unfold Fetched at hsent
    cases hl : listingOf sent with
    | error status =>
      rw [hl] at hsent
      obtain ⟨e, he⟩ := hsent
      exact fun w' hw' => ⟨e, hXs e w₁ w' he hw'⟩
    | ok l =>
      rw [hl] at hsent
      obtain ⟨hlast, hmore⟩ := h.page hsent ho
      show P.wp _ X (if l.nextCursor = [] then pure (.ok ((objects ++ l.objects).insertionSort (fun x y => x.name ≤ y.name)))
        else fetchPages s opts a.id pre pages l.nextCursor (objects ++ l.objects)) w₁
      by_cases hnext : l.nextCursor = []
      · rw [if_pos hnext]
        intro w' hw'
        obtain ⟨hI, hG | hgone⟩ := hR.stable_followed w₁ w' (hlast hnext) hw'
        · have hsorted : (objects ++ l.objects).insertionSort (fun x y => x.name ≤ y.name) = objects ++ l.objects :=
            List.Pairwise.insertionSort_eq (hG.sorted.imp le_of_lt)
          rw [hsorted]
          exact ⟨hI, Or.inl hG⟩
        · exact ⟨hI, Or.inr hgone⟩
      · rw [if_neg hnext]
        exact ih l.nextCursor (objects ++ l.objects) w₁ (hmore hnext)

end Rules

end Server

end EasyDocket
