import EasyDocket.Server.Serving

/-!
# What a walk comes by

One rule for walks over a directory, whatever goes on meanwhile: a walk that is not stopped has visited every file
that was there throughout, and none twice.
-/

namespace EasyDocket

namespace Server

variable {S σ : Type}

/-- Errors are results of what is attempted. -/
theorem wp_attempt {α : Type} {P : Protocol FsRequest FsRequest.Reply StoreError S} {p : Fs α} {s : S}
    {post : Except StoreError α → S → Prop} {xpost : StoreError → S → Prop} (hpost : ∀ r, P.Stable (post r))
    (h : P.wp (fun a => post (.ok a)) (fun e => post (.error e)) p s) : P.wp post xpost (Fs.attempt p) s := by
  refine Protocol.wp_tryCatch (Protocol.wp_bind (Protocol.wp_mono h (fun a s₁ h₁ => ?_) (fun e s₁ h₁ => ?_)))
  · exact fun s₂ h₂ => hpost _ s₁ s₂ h₁ h₂
  · exact fun s₂ h₂ => hpost _ s₁ s₂ h₁ h₂

/-- What a walk may count on: files that are `kept`, directories that are `there`, files that may be `real`, reasons
for a directory not to be read, and how long paths get. -/
structure View (S : Type) where
  kept : S → Path → Prop
  there : S → Path → Prop
  real : Path → Prop
  failed : FsError → S → Prop
  limit : ℕ

namespace View

variable (V : View S)

/-- What is kept has been kept, and what was there still is. -/
def Since (s s' : S) : Prop := (∀ q, V.kept s' q → V.kept s q) ∧ ∀ p, V.there s p → V.there s' p

/-- What the entries of a directory show. -/
structure Lists (s : S) (p : Path) (entries : List Entry) : Prop where
  nodup : (entries.map Entry.name).Nodup
  keeps : ∀ q, V.kept s q → p <+: q → p ≠ q → ∃ e ∈ entries, p ++ [e.name] <+: q ∧ (e.isDir = false ↔ p ++ [e.name] = q)
  reals : ∀ e ∈ entries, e.isDir = false → V.real (p ++ [e.name])
  dirs : ∀ e ∈ entries, e.isDir = true → V.there s (p ++ [e.name])
  short : ∀ e ∈ entries, (p ++ [e.name]).length ≤ V.limit

/-- The view fits a protocol, while `I` holds. -/
structure Fits (P : Protocol FsRequest FsRequest.Reply StoreError S) (I : S → Prop) : Prop where
  stable : P.Stable I
  rely : ∀ {s s'}, P.rely s s' → V.Since s s'
  step : ∀ {q s r s'}, P.step q s r s' → V.Since s s'
  may_read : ∀ s p, I s → P.pre (.readDir p) s
  reads : ∀ s p r s', I s → V.there s p → P.step (.readDir p) s r s' → I s' ∧ ∃ reply, r = .ok reply ∧
    (∀ entries, reply = .ok entries → V.Lists s' p entries) ∧ ∀ e, reply = .error e → V.failed e s'

theorem Since.refl (s : S) : V.Since s s := ⟨fun _ h => h, fun _ h => h⟩

variable {V}

theorem Since.trans {s₁ s₂ s₃ : S} (h : V.Since s₁ s₂) (h' : V.Since s₂ s₃) : V.Since s₁ s₃ :=
  ⟨fun q hq => h.1 q (h'.1 q hq), fun p hp => h'.2 p (h.2 p hp)⟩

end View

/-- Where a walk at an entry looks for files. -/
def Below (p : Path) (d : Entry) (q : Path) : Prop := p <+: q ∧ (d.isDir = false ↔ p = q)

/-- The rule of the function of a walk: `J` relates what has been gathered to the files visited, and `Stop` says why the
walk has been stopped. -/
structure Visits (P : Protocol FsRequest FsRequest.Reply StoreError S) (V : View S) (I : S → Prop)
    (J : σ → List Path → Prop) (Stop : Visit σ → S → Prop) (X : StoreError → S → Prop) (fn : WalkFunc σ) : Prop where
  stop : ∀ v s s', Stop v s → P.rely s s' → Stop v s'
  stopped : ∀ acc s, ¬ Stop (.next acc) s
  dir : ∀ acc p d s, d.isDir = true → I s → P.wp (fun v s' => (v = .next acc ∧ I s') ∨ Stop v s') X (fn acc p d none) s
  file : ∀ acc visited p d s, d.isDir = false → d.name = p.getLastD [] → V.real p → p ∉ visited → J acc visited → I s →
    P.wp (fun v s' => (∃ acc', v = .next acc' ∧ J acc' (visited ++ [p]) ∧ I s') ∨ Stop v s') X (fn acc p d none) s
  failed : ∀ acc p d e s, V.failed e s → I s → P.wp (fun v s' => Stop v s') X (fn acc p d (some e)) s

section Rule

variable {P : Protocol FsRequest FsRequest.Reply StoreError S} {V : View S} {I : S → Prop} {J : σ → List Path → Prop}
  {Stop : Visit σ → S → Prop} {X : StoreError → S → Prop} {fn : WalkFunc σ}

/-- What a walk has come to, in which `new` files below `p` were visited. -/
def Came (V : View S) (I : S → Prop) (J : σ → List Path → Prop) (Stop : Visit σ → S → Prop) (visited : List Path)
    (under target : Path → Prop) (v : Visit σ) (s : S) : Prop :=
  (∃ acc new, v = .next acc ∧ J acc (visited ++ new) ∧ I s ∧ (∀ q ∈ new, under q) ∧
    ∀ q, V.kept s q → target q → q ∈ new) ∨ Stop v s

theorem prefix_concat_unique {p q : Path} {x y : GoString} (hx : p ++ [x] <+: q) (hy : p ++ [y] <+: q) : x = y := by
  obtain ⟨a, rfl⟩ := hx
  obtain ⟨b, hb⟩ := hy
  rw [List.append_assoc, List.append_assoc] at hb
  exact (List.cons.inj (List.append_cancel_left hb)).1.symm

/-- A walk that has been stopped does nothing more. -/
theorem wp_stopped (hfn : Visits P V I J Stop X fn) {visited : List Path} {under target : Path → Prop} {v : Visit σ} {s : S}
    (h : Stop v s) : P.wp (Came V I J Stop visited under target) X (.pure v) s :=
  fun s' h' => Or.inr (hfn.stop v s s' h h')

/-- Walks over the entries of a directory, one after the other; `done` are those walked so far. -/
theorem wp_entries (hV : V.Fits P I) (hfn : Visits P V I J Stop X fn) {depth : ℕ} {p : Path} {entries : List Entry}
    {visited : List Path} {s₀ s : S} {acc : σ} (hl : V.Lists s₀ p entries)
    (ih : ∀ (d : Entry) (acc : σ) (visited : List Path) (s : S), d ∈ entries → V.Since s₀ s →
      (∀ q ∈ visited, ¬ p ++ [d.name] <+: q) → J acc visited → I s →
      P.wp (Came V I J Stop visited (p ++ [d.name] <+: ·) (Below (p ++ [d.name]) d)) X
        (walkDir fn depth (p ++ [d.name]) d acc) s)
    (hnew : ∀ q ∈ visited, ¬ p <+: q) (hs : V.Since s₀ s) (hJ : J acc visited) (hI : I s) :
    P.wp (Came V I J Stop visited (p <+: ·) (fun q => p <+: q ∧ p ≠ q)) X
      (entries.foldlM (fun v (d' : Entry) => match v with
        | .next acc => walkDir fn depth (p ++ [d'.name]) d' acc
        | stopped => pure stopped) (Visit.next acc)) s := by
  refine Protocol.wp_foldlM (fun v l s => V.Since s₀ s ∧ ∃ done, entries = done ++ l ∧
    Came V I J Stop visited (fun q => ∃ e ∈ done, p ++ [e.name] <+: q) (fun q => ∃ e ∈ done, Below (p ++ [e.name]) e q) v s)
    ?_ ?_ entries (.next acc) s ⟨hs, [], rfl, Or.inl ⟨acc, [], rfl, ?_, hI, ?_, ?_⟩⟩
  · rintro v e l s₁ ⟨hs₁, done, hentries, ⟨acc', new, rfl, hJ', hI', hunder, hcover⟩ | hstop⟩
    · have he : e ∈ entries := by rw [hentries]; simp
      have hfresh : ∀ q ∈ visited ++ new, ¬ p ++ [e.name] <+: q := by
        intro q hq hpre
        rcases List.mem_append.mp hq with hq | hq
        · exact hnew q hq ((List.prefix_append p [e.name]).trans hpre)
        · obtain ⟨e', he', hpre'⟩ := hunder q hq
          have hnodup := hl.nodup
          rw [hentries, List.map_append, List.nodup_append] at hnodup
          exact hnodup.2.2 e'.name (List.mem_map_of_mem he') e.name (List.mem_map_of_mem List.mem_cons_self)
            (prefix_concat_unique hpre' hpre)
      refine Protocol.wp_mono (Protocol.wp_since (R := V.Since) (View.Since.refl V) View.Since.trans hV.rely hV.step
        (ih e acc' (visited ++ new) s₁ he hs₁ hfresh hJ' hI')) (fun v s₂ hv => ?_) (fun _ _ hx => hx.1)
      obtain ⟨hcame, hs₂⟩ := hv
      refine ⟨hs₁.trans hs₂, done ++ [e], by rw [hentries]; simp, ?_⟩
      rcases hcame with ⟨acc₂, new₂, rfl, hJ₂, hI₂, hunder₂, hcover₂⟩ | hstop
      · refine Or.inl ⟨acc₂, new ++ new₂, rfl, by rwa [← List.append_assoc], hI₂, ?_, ?_⟩
        · intro q hq
          rcases List.mem_append.mp hq with hq | hq
          · obtain ⟨e', he', hpre⟩ := hunder q hq
            exact ⟨e', List.mem_append_left _ he', hpre⟩
          · exact ⟨e, List.mem_append_right _ (List.mem_singleton_self e), hunder₂ q hq⟩
        · rintro q hq ⟨e', he', hbelow⟩
          rcases List.mem_append.mp he' with he' | he'
          · exact List.mem_append_left _ (hcover q (hs₂.1 q hq) ⟨e', he', hbelow⟩)
          · rw [List.mem_singleton.mp he'] at hbelow
            exact List.mem_append_right _ (hcover₂ q hq hbelow)
      · exact Or.inr hstop
    · have hgo : ∀ v' : Visit σ, Stop v' s₁ → P.wp (fun b s' => V.Since s₀ s' ∧ ∃ done, entries = done ++ l ∧
          Came V I J Stop visited (fun q => ∃ e ∈ done, p ++ [e.name] <+: q)
            (fun q => ∃ e ∈ done, Below (p ++ [e.name]) e q) b s') X (.pure v') s₁ := fun v' hv' s₂ h₂ =>
        ⟨hs₁.trans (hV.rely h₂), done ++ [e], by rw [hentries]; simp, Or.inr (hfn.stop v' s₁ s₂ hv' h₂)⟩
      cases v with
      | next acc' => exact absurd hstop (hfn.stopped acc' s₁)
      | skipAll acc' => exact hgo _ hstop
      | fail e acc' => exact hgo _ hstop
  · rintro v s₁ ⟨hs₁, done, hentries, hcame⟩
    rw [List.append_nil] at hentries
    rcases hcame with ⟨acc', new, rfl, hJ', hI', hunder, hcover⟩ | hstop
    · intro s₂ h₂
      refine Or.inl ⟨acc', new, rfl, hJ', hV.stable s₁ s₂ hI' h₂, ?_, ?_⟩
      · intro q hq
        obtain ⟨e, -, hpre⟩ := hunder q hq
        exact (List.prefix_append p [e.name]).trans hpre
      · intro q hq htarget
        have hq₁ := (hV.rely h₂).1 q hq
        obtain ⟨e, he, hbelow⟩ := hl.keeps q (hs₁.1 q hq₁) htarget.1 htarget.2
        exact hcover q hq₁ ⟨e, hentries ▸ he, hbelow⟩
    · exact wp_stopped hfn hstop
  · rwa [List.append_nil]
  · exact fun q hq => absurd hq List.not_mem_nil
  · rintro q - ⟨e, he, -⟩
    exact absurd he List.not_mem_nil

/-- The rule of walks, by induction on the depth. -/
theorem wp_walkDir (hV : V.Fits P I) (hfn : Visits P V I J Stop X fn) :
    ∀ (depth : ℕ) (p : Path) (d : Entry) (acc : σ) (visited : List Path) (s : S), V.limit < p.length + depth →
      p.length ≤ V.limit → d.name = p.getLastD [] → (d.isDir = false → V.real p) → (d.isDir = true → V.there s p) →
      (∀ q ∈ visited, ¬ p <+: q) → J acc visited → I s →
      P.wp (Came V I J Stop visited (p <+: ·) (Below p d)) X (walkDir fn depth p d acc) s := by
  intro depth
  induction depth with
  | zero =>
    intro p d acc visited s hlimit hshort
    omega
  | succ depth ih =>
    intro p d acc visited s hlimit hshort hname hreal hthere hnew hJ hI
    unfold walkDir
    refine Protocol.wp_bind ?_
    cases hd : d.isDir with
    | false =>
      have hself : p ∉ visited := fun hm => hnew p hm (List.prefix_refl p)
      refine Protocol.wp_mono (hfn.file acc visited p d s hd hname (hreal hd) hself hJ hI) (fun v s' hv => ?_) (fun _ _ hx => hx)
      rcases hv with ⟨acc', rfl, hJ', hI'⟩ | hstop
      · simp only [if_true]
        refine Protocol.wp_pure hV.stable hI' (fun s'' hI'' => Or.inl ⟨acc', [p], rfl, hJ', hI'', ?_, ?_⟩)
        · intro q hq
          rw [List.mem_singleton.mp hq]
        · intro q _ hq
          exact List.mem_singleton.mpr (hq.2.mp hd).symm
      · cases v with
        | next acc' => exact absurd hstop (hfn.stopped acc' s')
        | skipAll acc' => exact wp_stopped hfn hstop
        | fail e acc' => exact wp_stopped hfn hstop
    | true =>
      have hsince := Protocol.wp_since (R := V.Since) (View.Since.refl V) View.Since.trans hV.rely hV.step
        (hfn.dir acc p d s hd hI)
      refine Protocol.wp_mono hsince (fun v s' hv => ?_) (fun _ _ hx => hx.1)
      obtain ⟨⟨rfl, hI'⟩ | hstop, hs'⟩ := hv
      · simp only [Bool.true_eq_false, if_false]
        have hst : P.Stable (fun s => I s ∧ V.there s p) :=
          fun s₁ s₂ h₁ h₂ => ⟨hV.stable s₁ s₂ h₁.1 h₂, (hV.rely h₂).2 p h₁.2⟩
        refine Protocol.wp_request_served hst ⟨hI', hs'.2 p (hthere hd)⟩ (fun s₁ h₁ => hV.may_read s₁ p h₁.1) ?_
        intro s₁ r s₂ h₁ hstep
        obtain ⟨hI₂, reply, rfl, hentries, hfail⟩ := hV.reads s₁ p r s₂ h₁.1 h₁.2 hstep
        refine ⟨reply, rfl, ?_⟩
        cases reply with
        | error e =>
          refine Protocol.wp_mono (hfn.failed acc p d e s₂ (hfail e rfl) hI₂) (fun v s₃ hv => Or.inr hv) (fun _ _ hx => hx)
        | ok entries =>
          have hl := hentries entries rfl
          refine Protocol.wp_mono (wp_entries hV hfn hl ?_ hnew (View.Since.refl V s₂) hJ hI₂)
            (fun v s₃ hv => ?_) (fun _ _ hx => hx)
          · intro e acc' visited' s' he hs'' hnew' hJ' hI''
            refine ih (p ++ [e.name]) e acc' visited' s' ?_ (hl.short e he) List.getLastD_concat.symm (hl.reals e he)
              (fun hdir => hs''.2 _ (hl.dirs e he hdir)) hnew' hJ' hI''
            rw [List.length_append, List.length_singleton]
            omega
          · exact hv.imp_left (fun ⟨acc', new, hnext, hJ', hI', hunder, hcover⟩ => ⟨acc', new, hnext, hJ', hI', hunder,
              fun q hq hb => hcover q hq ⟨hb.1, fun hpq => absurd (hd.symm.trans (hb.2.mpr hpq)) (by decide)⟩⟩)
      · cases v with
        | next acc' => exact absurd hstop (hfn.stopped acc' s')
        | skipAll acc' => exact wp_stopped hfn hstop
        | fail e acc' => exact wp_stopped hfn hstop

/-- The rule of `WalkDir`: if its root is missing, nothing is kept below it. -/
theorem wp_WalkDir (hV : V.Fits P I) (hfn : Visits P V I J Stop X fn) {depth : ℕ} {root : Path} {acc : σ} {s : S}
    (hdepth : V.limit < root.length + depth) (hshort : root.length ≤ V.limit) (hJ : J acc []) (hI : I s)
    (hmay : ∀ s, I s → P.pre (.lstat root) s)
    (hstat : ∀ s r s', I s → P.step (.lstat root) s r s' → I s' ∧ ∃ reply, r = .ok reply ∧
      (∀ info, reply = .ok info → info.isDir = true ∧ V.there s' root) ∧
      ∀ e, reply = .error e → V.failed e s' ∨ (e = .notExist ∧ ∀ q, V.kept s' q → ¬ root <+: q))
    (hmissing : fn acc root ⟨[], false⟩ (some .notExist) = pure (.skipAll acc)) :
    P.wp (fun v s' => Came V I J Stop [] (root <+: ·) (fun q => root <+: q ∧ root ≠ q) v s' ∨
      (v = .skipAll acc ∧ I s' ∧ ∀ q, V.kept s' q → ¬ root <+: q)) X (WalkDir fn depth root acc) s := by
  unfold WalkDir
  refine Protocol.wp_request_served hV.stable hI hmay (fun s₁ r s₂ h₁ hstep => ?_)
  obtain ⟨hI₂, reply, rfl, hok, herror⟩ := hstat s₁ r s₂ h₁ hstep
  refine ⟨reply, rfl, ?_⟩
  cases reply with
  | ok info =>
    obtain ⟨hdir, hthere⟩ := hok info rfl
    refine Protocol.wp_mono (wp_walkDir hV hfn depth root ⟨root.getLastD [], info.isDir⟩ acc [] s₂ hdepth hshort rfl
      (fun h => absurd (hdir.symm.trans h) (by decide)) (fun _ => hthere) (fun q hq => absurd hq List.not_mem_nil) hJ hI₂)
      (fun v s₃ hv => Or.inl (hv.imp_left ?_)) (fun _ _ hx => hx)
    rintro ⟨acc', new, hnext, hJ', hI', hunder, hcover⟩
    exact ⟨acc', new, hnext, hJ', hI', hunder, fun q hq hb =>
      hcover q hq ⟨hb.1, fun h => absurd (hdir.symm.trans h) (by decide), fun h => absurd h hb.2⟩⟩
  | error e =>
    rcases herror e rfl with hfailed | ⟨rfl, hnone⟩
    · exact Protocol.wp_mono (hfn.failed acc root ⟨[], false⟩ e s₂ hfailed hI₂) (fun v s₃ hv => Or.inl (Or.inr hv))
        (fun _ _ hx => hx)
    · show P.wp _ X (fn acc root ⟨[], false⟩ (some .notExist)) s₂
      rw [hmissing]
      exact fun s₃ h₃ => Or.inr ⟨rfl, hV.stable s₂ s₃ hI₂ h₃, fun q hq => hnone q ((hV.rely h₃).1 q hq)⟩

end Rule

end Server

end EasyDocket
