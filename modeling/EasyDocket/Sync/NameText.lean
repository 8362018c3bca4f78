import EasyDocket.Sync.Objects
import EasyDocket.HlcRuns
import EasyDocket.Server.Names
import EasyDocket.Keys.Vault

/-!
# Names of objects as texts

What `sync-target.ts` makes of a vault, a kind and a stamp, how it reads a stamp back, and what the server accepts.
Names of operation objects are agreed on; names of snapshots are refused (`agrees_iff`).
-/

namespace EasyDocket

open Numeral

/-! ## Building names -/

def opsPrefix (vault : JsString) : JsString := js "vaults/" ++ vault ++ js "/ops/"

def snapshotPrefix (vault : JsString) : JsString := js "vaults/" ++ vault ++ js "/snapshots/"

/-- The prefix the objects of a kind are listed by. -/
def objectPrefix (vault : JsString) : ObjectKind → JsString
  | .ops => opsPrefix vault
  | .snapshot => snapshotPrefix vault

/-- A stamp as `encodeHlc` writes it. -/
def Stamp.text (s : Stamp) : JsString := encodeHlc (.ofClock ⟨s.physical, s.counter⟩) s.device

/-- The text of a name, as `opsObjectName` and `snapshotObjectName` put it together. -/
def ObjectName.text (n : ObjectName) : JsString := objectPrefix n.vault n.kind ++ n.stamp.text ++ js ".edk"

/-! ## Reading stamps -/

/-- `[0-9]{19}-[0-9a-f]{4}-[A-Za-z0-9]+`, of at most `n` characters at the end. -/
def stampPattern (n : ℕ) : Pattern CodeUnit :=
  [⟨JsNumber.isLowerDigit 10, 19, 19⟩] ++ Pattern.literal (js "-") ++ [⟨JsNumber.isLowerDigit 16, 4, 4⟩] ++
    Pattern.literal (js "-") ++ [⟨isAlnum, 1, n⟩]

/-- The group of `/\/([0-9]{19}-[0-9a-f]{4}-[A-Za-z0-9]+)\.edk$/`, matched at the start of a text. -/
def stampAt : JsString → Option JsString
  | [] => none
  | c :: rest =>
    if c = unit '/' ∧ (stampPattern rest.length ++ Pattern.literal (js ".edk")).isMatch rest = true then
      some (rest.take (rest.length - 4))
    else none

/-- `stampFromObjectName`: the group of the leftmost match. -/
def stampFromText (name : JsString) : Option JsString := name.tails.findSome? stampAt

/-! ## On the server -/

/-- The bytes of a text in ASCII, in a request and on the server. -/
def asciiBytes (s : JsString) : Option Server.GoString :=
  if s.all (fun c => c.val < 128) then some (s.map (fun c => Fin.ofNat 256 c.val)) else none

/-- The server takes a name. -/
def ServerTakes (name : JsString) : Prop := ∃ bytes, asciiBytes name = some bytes ∧ Server.validateName bytes = .ok ()

/-- The server lists by a prefix. -/
def ServerLists (pre : JsString) : Prop := ∃ bytes, asciiBytes pre = some bytes ∧ Server.validatePrefix bytes = .ok ()

/-- Client and server agree on a name. -/
structure Agrees (n : ObjectName) : Prop where
  taken : ServerTakes n.text
  under : objectPrefix n.vault n.kind <+: n.text
  listed : ServerLists (objectPrefix n.vault n.kind)
  recovered : stampFromText n.text = some n.stamp.text

def hexPiece (n : ℕ) : Piece CodeUnit := ⟨JsNumber.isLowerDigit 16, n, n⟩

def onePiece (choice : JsString) : Piece CodeUnit := ⟨fun c => choice.contains c, 1, 1⟩

/-- `[0-9a-f]{8}-[0-9a-f]{4}-4[0-9a-f]{3}-[89ab][0-9a-f]{3}-[0-9a-f]{12}`, what `randomUUID` gives. -/
def uuidPattern : Pattern CodeUnit :=
  [hexPiece 8, onePiece (js "-"), hexPiece 4, onePiece (js "-"), onePiece (js "4"), hexPiece 3, onePiece (js "-"),
    onePiece (js "89ab"), hexPiece 3, onePiece (js "-"), hexPiece 12]

def IsUuid (s : JsString) : Prop := uuidPattern.isMatch s = true

instance (s : JsString) : Decidable (IsUuid s) := inferInstanceAs (Decidable (_ = true))

example : stampFromText (js "vaults/v/snapshots/0000000000000000007-00ff-pixel8.edk") =
    some (js "0000000000000000007-00ff-pixel8") ∧ stampFromText (js "0000000000000000007-00ff-.edk") = none := by
  decide

/-! ## Texts in ASCII -/

/-- A code unit as a byte. -/
def byteOf (c : CodeUnit) : Server.GoByte := Fin.ofNat 256 c.val

theorem asciiBytes_eq {s : JsString} (h : ∀ c ∈ s, c.val < 128) : asciiBytes s = some (s.map byteOf) :=
  if_pos (List.all_eq_true.mpr (fun c hc => decide_eq_true (h c hc)))

theorem js_ascii {s : String} (h : s.toList.all (fun c => c.toNat < 128) = true) : ∀ x ∈ js s, x.val < 128 := by
  intro x hx
  obtain ⟨c, hc, rfl⟩ := List.mem_map.mp hx
  exact lt_of_le_of_lt (Nat.mod_le _ _) (of_decide_eq_true (List.all_eq_true.mp h c hc))

theorem js_bytes (s : String) : (js s).map byteOf = Server.go s := by
  unfold js Server.go
  rw [List.map_map]
  refine List.map_congr_left (fun c _ => Fin.ext ?_)
  show (c.toNat % 65536) % 256 = c.toNat % 256
  omega

/-- A class of code units in ASCII is a class of bytes. -/
def SameClass (p : CodeUnit → Bool) (q : Server.GoByte → Bool) : Prop :=
  ∀ c : CodeUnit, p c = true → c.val < 128 ∧ q (byteOf c) = true

theorem SameClass.bytes {p : CodeUnit → Bool} {q : Server.GoByte → Bool} (h : SameClass p q) {s : JsString}
    (hs : ∀ c ∈ s, p c = true) : ∀ x ∈ s.map byteOf, q x = true := by
  intro x hx
  obtain ⟨c, hc, rfl⟩ := List.mem_map.mp hx
  exact (h c (hs c hc)).2

/-- A class is looked through on the code units of ASCII. -/
theorem SameClass.of_ascii {p : CodeUnit → Bool} {q : Server.GoByte → Bool} (hp : ∀ c, p c = true → c.val < 128)
    (h : ∀ n < 128, p (Fin.ofNat 65536 n) = true → q (Fin.ofNat 256 n) = true) : SameClass p q := by
  intro c hc
  have hlt := hp c hc
  have heq : Fin.ofNat 65536 c.val = c := Fin.ext (Nat.mod_eq_of_lt (by omega))
  exact ⟨hlt, h c.val hlt (heq.symm ▸ hc)⟩

theorem sameClass_digit : SameClass (JsNumber.isLowerDigit 10) Server.isDigit := by
  intro c hc
  obtain ⟨d, hd, rfl⟩ := JsNumber.isLowerDigit_iff.mp hc
  have hall : ∀ d < 10, (JsNumber.digitText d).val < 128 ∧ Server.isDigit (byteOf (JsNumber.digitText d)) = true := by
    decide
  exact hall d hd

theorem sameClass_hex : SameClass (JsNumber.isLowerDigit 16) Server.isHexDigit := by
  intro c hc
  obtain ⟨d, hd, rfl⟩ := JsNumber.isLowerDigit_iff.mp hc
  have hall : ∀ d < 16, (JsNumber.digitText d).val < 128 ∧ Server.isHexDigit (byteOf (JsNumber.digitText d)) = true := by
    decide
  exact hall d hd

theorem isAlnum_ascii {c : CodeUnit} (h : isAlnum c = true) : c.val < 128 := by
  have h9 : (unit '9').val = 57 := rfl
  have hZ : (unit 'Z').val = 90 := rfl
  have hz : (unit 'z').val = 122 := rfl
  simp only [isAlnum, Bool.or_eq_true, Bool.and_eq_true, decide_eq_true_eq, Fin.le_def] at h
  omega

theorem sameClass_alnum : SameClass isAlnum Server.isAlphaNum :=
  SameClass.of_ascii (fun _ => isAlnum_ascii) (by decide)

/-- Hexadecimal digits and hyphens. -/
def isUuidUnit (c : CodeUnit) : Bool := JsNumber.isLowerDigit 16 c || c = hyphen

theorem sameClass_uuid : SameClass isUuidUnit Server.isIdByte := by
  intro c hc
  rcases (Bool.or_eq_true _ _).mp hc with hc | hc
  · obtain ⟨hlt, hhex⟩ := sameClass_hex c hc
    exact ⟨hlt, Server.isIdByte_of_isHexDigit hhex⟩
  · rw [of_decide_eq_true hc]
    decide

theorem hexPiece_accepts {n : ℕ} {c : CodeUnit} (h : (hexPiece n).accepts c = true) : isUuidUnit c = true := by
  have hc : JsNumber.isLowerDigit 16 c = true := h
  unfold isUuidUnit
  rw [hc]
  rfl

theorem onePiece_accepts {choice : JsString} (hall : choice.all isUuidUnit = true) {c : CodeUnit}
    (h : (onePiece choice).accepts c = true) : isUuidUnit c = true :=
  List.all_eq_true.mp hall c (List.contains_iff_mem.mp h)

theorem IsUuid.units {s : JsString} (h : IsUuid s) : ∀ c ∈ s, isUuidUnit c = true := by
  refine Pattern.forall_of_isMatch (fun q hq x hx => ?_) h
  simp only [uuidPattern, List.mem_cons, List.not_mem_nil, or_false] at hq
  rcases hq with rfl | rfl | rfl | rfl | rfl | rfl | rfl | rfl | rfl | rfl | rfl
  all_goals first | exact hexPiece_accepts hx | exact onePiece_accepts (by decide) hx

theorem IsUuid.length {s : JsString} (h : IsUuid s) : s.length = 36 :=
  Nat.le_antisymm (Pattern.length_of_isMatch h).2 (Pattern.length_of_isMatch h).1

/-! ## Device ids -/

theorem deviceIdOf_units (random : Bytes) : ∀ c ∈ VaultService.deviceIdOf random, isAlnum c = true := by
  intro c hc
  have hfilter := List.of_mem_filter (List.mem_of_mem_take hc)
  simp only [isAlnum, Bool.or_eq_true] at hfilter ⊢
  tauto

theorem deviceIdOf_length (random : Bytes) : (VaultService.deviceIdOf random).length ≤ 8 := List.length_take_le ..

/-! ## Names on the server -/

variable {c : Clock} {vault device : JsString}

theorem stamp_text (hc : c.Fits) :
    (c.stamp device).text = physicalText c ++ js "-" ++ counterText c ++ js "-" ++ device := by
  show encodeHlc (.ofClock c) device = _
  rw [encodeHlc_ofClock hc]
  simp only [List.append_assoc]
  rfl

theorem text_eq (hc : c.Fits) (kind : ObjectKind) : (⟨vault, kind, c.stamp device⟩ : ObjectName).text =
    objectPrefix vault kind ++ (physicalText c ++ js "-" ++ counterText c ++ js "-" ++ device ++ js ".edk") := by
  show objectPrefix vault kind ++ (c.stamp device).text ++ js ".edk" = _
  rw [stamp_text hc, List.append_assoc]

/-- The bytes of the last segment of a name. -/
def fileBytes (c : Clock) (device : JsString) : Server.GoString :=
  (physicalText c).map byteOf ++ Server.go "-" ++ (counterText c).map byteOf ++ Server.go "-" ++ device.map byteOf ++
    Server.go ".edk"

theorem fileBytes_isMatch (hne : device ≠ []) (hlen : device.length ≤ 32) (hdevice : ∀ x ∈ device, isAlnum x = true) :
    Server.fileNamePattern.isMatch (fileBytes c device) = true := by
  have hphysical : Pattern.isMatch [⟨Server.isDigit, 19, 19⟩] ((physicalText c).map byteOf) = true := by
    refine Pattern.isMatch_singleton.mpr ⟨?_, ?_, sameClass_digit.bytes (physicalText_digits c)⟩
    all_goals rw [List.length_map, physicalText_length]; exact le_refl 19
  have hcounter : Pattern.isMatch [⟨Server.isHexDigit, 4, 4⟩] ((counterText c).map byteOf) = true := by
    refine Pattern.isMatch_singleton.mpr ⟨?_, ?_, sameClass_hex.bytes (counterText_digits c)⟩
    all_goals rw [List.length_map, counterText_length]; exact le_refl 4
  have hid : Pattern.isMatch [⟨Server.isAlphaNum, 1, 32⟩] (device.map byteOf) = true := by
    refine Pattern.isMatch_singleton.mpr ⟨?_, ?_, sameClass_alnum.bytes hdevice⟩
    · rw [List.length_map]
      exact List.length_pos_iff.mpr hne
    · rw [List.length_map]
      exact hlen
  have hdash : (Pattern.literal (Server.go "-")).isMatch (Server.go "-") = true := Pattern.isMatch_literal.mpr rfl
  have hedk : (Pattern.literal (Server.go ".edk")).isMatch (Server.go ".edk") = true := Pattern.isMatch_literal.mpr rfl
  unfold Server.fileNamePattern fileBytes
  refine Pattern.isMatch_append.mpr ⟨_, _, rfl, ?_, hedk⟩
  refine Pattern.isMatch_append.mpr ⟨_, _, rfl, ?_, hid⟩
  refine Pattern.isMatch_append.mpr ⟨_, _, rfl, ?_, hdash⟩
  refine Pattern.isMatch_append.mpr ⟨_, _, rfl, ?_, hcounter⟩
  exact Pattern.isMatch_append.mpr ⟨_, _, rfl, hphysical, hdash⟩

/-- What follows the vault in a prefix. -/
def ObjectKind.directory : ObjectKind → String
  | .ops => "/ops/"
  | .snapshot => "/snapshots/"

/-- The segment of a prefix that tells the kind. -/
def ObjectKind.segment : ObjectKind → String
  | .ops => "ops"
  | .snapshot => "snapshots"

theorem objectPrefix_eq (vault : JsString) (kind : ObjectKind) :
    objectPrefix vault kind = js "vaults/" ++ vault ++ js kind.directory := by
  cases kind <;> rfl

theorem prefix_ascii (hv : IsUuid vault) (kind : ObjectKind) : ∀ x ∈ objectPrefix vault kind, x.val < 128 := by
  have hdirectory : ∀ x ∈ js kind.directory, x.val < 128 := by cases kind <;> exact js_ascii (by decide)
  rw [objectPrefix_eq]
  intro x hx
  rcases List.mem_append.mp hx with hx | hx
  · rcases List.mem_append.mp hx with hx | hx
    · exact js_ascii (by decide) x hx
    · exact (sameClass_uuid x (hv.units x hx)).1
  · exact hdirectory x hx

theorem text_ascii (hv : IsUuid vault) (hc : c.Fits) (hdevice : ∀ x ∈ device, isAlnum x = true) (kind : ObjectKind) :
    ∀ x ∈ (⟨vault, kind, c.stamp device⟩ : ObjectName).text, x.val < 128 := by
  have hdash : ∀ x ∈ js "-", x.val < 128 := js_ascii (by decide)
  rw [text_eq hc]
  intro x hx
  simp only [List.mem_append] at hx
  rcases hx with hx | ((((hx | hx) | hx) | hx) | hx) | hx
  · exact prefix_ascii hv kind x hx
  · exact (sameClass_digit x (physicalText_digits c x hx)).1
  · exact hdash x hx
  · exact (sameClass_hex x (counterText_digits c x hx)).1
  · exact hdash x hx
  · exact isAlnum_ascii (hdevice x hx)
  · exact js_ascii (by decide) x hx

/-- The bytes of a name. -/
theorem text_bytes (hc : c.Fits) (kind : ObjectKind) : (⟨vault, kind, c.stamp device⟩ : ObjectName).text.map byteOf =
    Server.go "vaults/" ++ vault.map byteOf ++ Server.go kind.directory ++ fileBytes c device := by
  rw [text_eq hc, objectPrefix_eq]
  simp only [List.map_append, js_bytes]
  rfl

/-- A name is taken by the server if its bytes pass the check. -/
theorem serverTakes_iff (hv : IsUuid vault) (hc : c.Fits) (hdevice : ∀ x ∈ device, isAlnum x = true) (kind : ObjectKind) :
    ServerTakes (⟨vault, kind, c.stamp device⟩ : ObjectName).text ↔
      Server.validateName (Server.go "vaults/" ++ vault.map byteOf ++ Server.go kind.directory ++ fileBytes c device) =
        .ok () := by
  unfold ServerTakes
  rw [asciiBytes_eq (text_ascii hv hc hdevice kind), text_bytes hc]
  simp

/-- The bytes of the last segment before its extension. -/
def stemBytes (c : Clock) (device : JsString) : Server.GoString :=
  (physicalText c).map byteOf ++ Server.go "-" ++ (counterText c).map byteOf ++ Server.go "-" ++ device.map byteOf

theorem stemBytes_idBytes (hdevice : ∀ x ∈ device, isAlnum x = true) : ∀ x ∈ stemBytes c device, Server.isIdByte x = true := by
  intro x hx
  simp only [stemBytes, List.mem_append] at hx
  rcases hx with (((hx | hx) | hx) | hx) | hx
  · exact Server.isIdByte_of_isDigit (sameClass_digit.bytes (physicalText_digits c) x hx)
  · exact Server.isIdByte_dash x hx
  · exact Server.isIdByte_of_isHexDigit (sameClass_hex.bytes (counterText_digits c) x hx)
  · exact Server.isIdByte_dash x hx
  · exact Server.isIdByte_of_isAlphaNum (sameClass_alnum.bytes hdevice x hx)

theorem fileBytes_length (c : Clock) (device : JsString) : (fileBytes c device).length = 29 + device.length := by
  have hdash : (Server.go "-").length = 1 := rfl
  have hedk : (Server.go ".edk").length = 4 := rfl
  have hphysical : PHYSICAL_WIDTH = 19 := rfl
  have hcounter : COUNTER_WIDTH = 4 := rfl
  simp only [fileBytes, List.length_append, List.length_map, physicalText_length, counterText_length, hdash, hedk]
  omega

/-- A text whose only dot is at the end of its stem has no two dots. -/
theorem not_dots {l : Server.GoString} (h : l.count (Server.octet '.') ≤ 1) : ¬ Server.go ".." <:+: l := by
  intro hin
  have hcount := hin.sublist.count_le (Server.octet '.')
  have htwo : (Server.go "..").count (Server.octet '.') = 2 := by decide
  omega

theorem count_dot_of_idBytes {l : Server.GoString} (h : ∀ x ∈ l, Server.isIdByte x = true) :
    l.count (Server.octet '.') = 0 := by
  refine List.count_eq_zero.mpr (fun hmem => ?_)
  exact Bool.false_ne_true (Server.isIdByte_dot.symm.trans (h _ hmem))

theorem not_rooted (s : Server.GoString) : ¬ Server.go "/" <+: Server.go "vaults/" ++ s := by
  rintro ⟨t, ht⟩
  have hhead : some (Server.octet '/') = some (Server.octet 'v') := congrArg List.head? ht
  exact absurd hhead (by decide)

theorem serverTakes_ops (hv : IsUuid vault) (hc : c.Fits) (hne : device ≠ []) (hlen : device.length ≤ 32)
    (hdevice : ∀ x ∈ device, isAlnum x = true) : ServerTakes (⟨vault, .ops, c.stamp device⟩ : ObjectName).text := by
  have hvaults : (Server.go "vaults/").length = 7 := rfl
  have hops : (Server.go "/ops/").length = 5 := rfl
  have hid : ∀ x ∈ vault.map byteOf, Server.isIdByte x = true := sameClass_uuid.bytes hv.units
  have hvlen : (vault.map byteOf).length = 36 := by rw [List.length_map, hv.length]
  have hlength : ¬ (Server.go "vaults/" ++ vault.map byteOf ++ Server.go "/ops/" ++ fileBytes c device).length > 256 := by
    simp only [List.length_append, fileBytes_length, hvaults, hops, hvlen]
    omega
  have hdots : ¬ Server.go ".." <:+: Server.go "vaults/" ++ vault.map byteOf ++ Server.go "/ops/" ++ fileBytes c device := by
    refine not_dots (le_of_eq ?_)
    show ((Server.go "vaults/" ++ vault.map byteOf ++ Server.go "/ops/") ++ (stemBytes c device ++ Server.go ".edk")).count _ = 1
    have h1 : (Server.go "vaults/").count (Server.octet '.') = 0 := by decide
    have h2 : (Server.go "/ops/").count (Server.octet '.') = 0 := by decide
    have h3 : (Server.go ".edk").count (Server.octet '.') = 1 := by decide
    rw [List.count_append, List.count_append, List.count_append, List.count_append, count_dot_of_idBytes hid,
      count_dot_of_idBytes (stemBytes_idBytes hdevice), h1, h2, h3]
  have hrooted : ¬ Server.go "/" <+: Server.go "vaults/" ++ vault.map byteOf ++ Server.go "/ops/" ++ fileBytes c device := by
    rw [List.append_assoc, List.append_assoc]
    exact not_rooted _
  have hmatch : Server.objectNamePattern.isMatch
      (Server.go "vaults/" ++ vault.map byteOf ++ Server.go "/ops/" ++ fileBytes c device) = true := by
    refine Pattern.isMatch_append.mpr ⟨_, _, rfl, ?_, fileBytes_isMatch hne hlen hdevice⟩
    refine Pattern.isMatch_append.mpr ⟨_, _, rfl, ?_, Pattern.isMatch_literal.mpr rfl⟩
    refine Pattern.isMatch_append.mpr ⟨_, _, rfl, Pattern.isMatch_literal.mpr rfl, ?_⟩
    exact Pattern.isMatch_singleton.mpr ⟨by rw [hvlen]; decide, by rw [hvlen]; decide, hid⟩
  refine (serverTakes_iff hv hc hdevice .ops).mpr ?_
  show Server.validateName (Server.go "vaults/" ++ vault.map byteOf ++ Server.go "/ops/" ++ fileBytes c device) = .ok ()
  unfold Server.validateName
  rw [if_neg hlength, if_neg (not_or.mpr ⟨hdots, hrooted⟩), if_neg (by rw [hmatch]; exact Bool.noConfusion)]

/-- The segments of a name. -/
theorem split_bytes (hv : IsUuid vault) (hdevice : ∀ x ∈ device, isAlnum x = true) (kind : ObjectKind) :
    Server.splitSlash (Server.go "vaults/" ++ vault.map byteOf ++ Server.go kind.directory ++ fileBytes c device) =
      [Server.go "vaults", vault.map byteOf, Server.go kind.segment, fileBytes c device] := by
  have hvault : Server.slash ∉ vault.map byteOf :=
    fun h => Bool.false_ne_true (Server.isIdByte_slash.symm.trans (sameClass_uuid.bytes hv.units _ h))
  have hfile : Server.slash ∉ fileBytes c device := by
    show Server.slash ∉ stemBytes c device ++ Server.go ".edk"
    intro h
    rcases List.mem_append.mp h with h | h
    · exact Bool.false_ne_true (Server.isIdByte_slash.symm.trans (stemBytes_idBytes hdevice _ h))
    · exact absurd h (by decide)
  have hsegment : Server.slash ∉ Server.go kind.segment := by cases kind <;> decide
  have hvaults : Server.slash ∉ Server.go "vaults" := by decide
  have hname : Server.go "vaults/" ++ vault.map byteOf ++ Server.go kind.directory ++ fileBytes c device =
      Server.go "vaults" ++ Server.slash :: (vault.map byteOf ++ Server.slash :: (Server.go kind.segment ++
        Server.slash :: fileBytes c device)) := by
    rw [show Server.go "vaults/" = Server.go "vaults" ++ [Server.slash] from rfl,
      show Server.go kind.directory = Server.slash :: (Server.go kind.segment ++ [Server.slash]) by cases kind <;> rfl]
    simp only [List.append_assoc, List.cons_append, List.nil_append]
  rw [hname, Server.splitSlash_append, Server.splitSlash_append, Server.splitSlash_append, Server.splitSlash_of_no_slash hvault,
    Server.splitSlash_of_no_slash hvaults, Server.splitSlash_of_no_slash hsegment, Server.splitSlash_of_no_slash hfile]
  rfl

theorem serverLists_prefix (hv : IsUuid vault) (kind : ObjectKind) : ServerLists (objectPrefix vault kind) := by
  have hvaults : (Server.go "vaults/").length = 7 := rfl
  have hid : ∀ x ∈ vault.map byteOf, Server.isIdByte x = true := sameClass_uuid.bytes hv.units
  have hvlen : (vault.map byteOf).length = 36 := by rw [List.length_map, hv.length]
  have hdirectory : (Server.go kind.directory).length ≤ 11 := by cases kind <;> decide
  have hlength : ¬ (Server.go "vaults/" ++ vault.map byteOf ++ Server.go kind.directory).length > 256 := by
    simp only [List.length_append, hvaults, hvlen]
    omega
  have hdots : ¬ Server.go ".." <:+: Server.go "vaults/" ++ vault.map byteOf ++ Server.go kind.directory := by
    have h1 : (Server.go "vaults/").count (Server.octet '.') = 0 := by decide
    have h2 : (Server.go kind.directory).count (Server.octet '.') = 0 := by cases kind <;> decide
    refine not_dots ?_
    rw [List.count_append, List.count_append, count_dot_of_idBytes hid, h1, h2]
    exact Nat.zero_le 1
  have hrooted : ¬ Server.go "/" <+: Server.go "vaults/" ++ vault.map byteOf ++ Server.go kind.directory := by
    rw [List.append_assoc]
    exact not_rooted _
  have hbytes : ∀ x ∈ Server.go "vaults/" ++ vault.map byteOf ++ Server.go kind.directory, Server.isPrefixByte x = true := by
    have h1 : ∀ y ∈ Server.go "vaults/", Server.isPrefixByte y = true := List.all_eq_true.mp (by decide)
    have h2 : ∀ y ∈ Server.go kind.directory, Server.isPrefixByte y = true :=
      List.all_eq_true.mp (by cases kind <;> decide)
    simp only [List.forall_mem_append]
    exact ⟨⟨h1, fun x hx => Server.isPrefixByte_of_isIdByte (hid x hx)⟩, h2⟩
  refine ⟨_, asciiBytes_eq (prefix_ascii hv kind), ?_⟩
  rw [objectPrefix_eq]
  simp only [List.map_append, js_bytes]
  unfold Server.validatePrefix
  rw [if_neg hlength, if_neg (not_or.mpr ⟨hdots, hrooted⟩), List.dropWhile_eq_nil_iff.mpr hbytes]

/-- What the server takes is an operation object with a device in its stamp. -/
theorem ops_of_serverTakes (hv : IsUuid vault) (hc : c.Fits) (hdevice : ∀ x ∈ device, isAlnum x = true) {kind : ObjectKind}
    (h : ServerTakes (⟨vault, kind, c.stamp device⟩ : ObjectName).text) : kind = .ops ∧ device ≠ [] := by
  obtain ⟨vault', file, hparts⟩ := Server.validateName_ok ((serverTakes_iff hv hc hdevice kind).mp h)
  have hsegments := (split_bytes hv hdevice kind).symm.trans hparts.split
  simp only [List.cons.injEq] at hsegments
  obtain ⟨-, -, hkind, hfile, -⟩ := hsegments
  refine ⟨?_, ?_⟩
  · cases kind with
    | ops => rfl
    | snapshot => exact absurd hkind (by decide)
  · rintro rfl
    have hshort := (Pattern.length_of_isMatch hparts.file_match).1
    rw [← hfile, fileBytes_length] at hshort
    exact absurd hshort (by decide)

/-! ## Reading a name back -/

theorem literal_rejects {w : JsString} {x : CodeUnit} (h : x ∉ w) : ∀ q ∈ Pattern.literal w, q.accepts x = false := by
  intro q hq
  obtain ⟨a, ha, rfl⟩ := List.mem_map.mp hq
  exact decide_eq_false (ne_of_mem_of_not_mem ha h).symm

/-- No part of a stamp or of the extension is a slash. -/
theorem stampPattern_rejects (n : ℕ) : ∀ q ∈ stampPattern n ++ Pattern.literal (js ".edk"), q.accepts (unit '/') = false := by
  have hdash := literal_rejects (w := js "-") (x := unit '/') (by decide)
  have hedk := literal_rejects (w := js ".edk") (x := unit '/') (by decide)
  intro q hq
  simp only [stampPattern, List.mem_append, List.mem_singleton] at hq
  rcases hq with ((((rfl | hq) | rfl) | hq) | rfl) | hq
  · decide
  · exact hdash q hq
  · decide
  · exact hdash q hq
  · show isAlnum (unit '/') = false
    decide
  · exact hedk q hq

theorem stampAt_of_slash_mem {x : CodeUnit} {rest : JsString} (h : unit '/' ∈ rest) : stampAt (x :: rest) = none := by
  refine if_neg (fun hmatch => ?_)
  refine Pattern.forall_of_isMatch (p := fun y => y ≠ unit '/') (fun q hq y hy hslash => ?_) hmatch.2 _ h rfl
  rw [hslash, stampPattern_rejects _ q hq] at hy
  cases hy

theorem stampAt_of_ne {x : CodeUnit} {rest : JsString} (h : x ≠ unit '/') : stampAt (x :: rest) = none :=
  if_neg (fun hmatch => h hmatch.1)

theorem stampFromText_cons (x : CodeUnit) (s : JsString) :
    stampFromText (x :: s) = (stampAt (x :: s)).or (stampFromText s) := by
  unfold stampFromText
  rw [List.tails_cons, List.findSome?_cons]
  cases stampAt (x :: s) <;> rfl

theorem stampFromText_of_no_slash {s : JsString} (h : unit '/' ∉ s) : stampFromText s = none := by
  induction s with
  | nil => rfl
  | cons x s ih =>
    rw [List.mem_cons, not_or] at h
    rw [stampFromText_cons, stampAt_of_ne (Ne.symm h.1), ih h.2]
    rfl

/-- The stamp of a text is that of its last segment. -/
theorem stampFromText_append {file : JsString} (h : unit '/' ∉ file) :
    ∀ pre : JsString, stampFromText (pre ++ unit '/' :: file) = stampAt (unit '/' :: file)
  | [] => by
    rw [List.nil_append, stampFromText_cons, stampFromText_of_no_slash h, Option.or_none]
  | x :: pre => by
    have hmem : unit '/' ∈ pre ++ unit '/' :: file := List.mem_append_right _ List.mem_cons_self
    rw [List.cons_append, stampFromText_cons, stampAt_of_slash_mem hmem, Option.none_or, stampFromText_append h pre]

/-- A text before the extension matches if the fields do. -/
theorem stampPattern_isMatch_iff (hlen : device.length ≤ n) :
    (stampPattern n ++ Pattern.literal (js ".edk")).isMatch
      (physicalText c ++ js "-" ++ counterText c ++ js "-" ++ device ++ js ".edk") = true ↔
    device ≠ [] ∧ ∀ x ∈ device, isAlnum x = true := by
  have hdash : (Pattern.literal (js "-")).isMatch (js "-") = true := Pattern.isMatch_literal.mpr rfl
  have hphysical : Pattern.isMatch [⟨JsNumber.isLowerDigit 10, 19, 19⟩] (physicalText c) = true := by
    refine Pattern.isMatch_singleton.mpr ⟨?_, ?_, physicalText_digits c⟩
    all_goals rw [physicalText_length]; exact le_refl 19
  have hcounter : Pattern.isMatch [⟨JsNumber.isLowerDigit 16, 4, 4⟩] (counterText c) = true := by
    refine Pattern.isMatch_singleton.mpr ⟨?_, ?_, counterText_digits c⟩
    all_goals rw [counterText_length]; exact le_refl 4
  constructor
  · intro h
    obtain ⟨stem, ext, heq, hstem, hext⟩ := Pattern.isMatch_append.mp h
    rw [Pattern.isMatch_literal.mp hext] at heq
    have hstem' := List.append_cancel_right heq
    obtain ⟨a, device', rfl, ha, hdevice'⟩ := Pattern.isMatch_append.mp hstem
    obtain ⟨hpos, -, hall⟩ := Pattern.isMatch_singleton.mp hdevice'
    have hlength := Pattern.length_of_isMatch ha
    have hfields : (physicalText c ++ js "-" ++ counterText c ++ js "-").length = a.length := by
      have h25 : a.length = 25 := Nat.le_antisymm hlength.2 hlength.1
      rw [h25]
      simp only [List.length_append, physicalText_length, counterText_length]
      decide
    obtain ⟨-, rfl⟩ := List.append_inj hstem' hfields
    exact ⟨List.length_pos_iff.mp hpos, hall⟩
  · rintro ⟨hne, hall⟩
    refine Pattern.isMatch_append.mpr ⟨_, _, rfl, ?_, Pattern.isMatch_literal.mpr rfl⟩
    refine Pattern.isMatch_append.mpr ⟨_, _, rfl, ?_, ?_⟩
    · refine Pattern.isMatch_append.mpr ⟨_, _, rfl, ?_, hdash⟩
      refine Pattern.isMatch_append.mpr ⟨_, _, rfl, ?_, hcounter⟩
      exact Pattern.isMatch_append.mpr ⟨_, _, rfl, hphysical, hdash⟩
    · exact Pattern.isMatch_singleton.mpr ⟨List.length_pos_iff.mpr hne, hlen, hall⟩

/-- The stamp in the text of a name is the one in its parts. -/
theorem stampFromText_text (hc : c.Fits) (hslash : unit '/' ∉ device) (kind : ObjectKind) :
    stampFromText (⟨vault, kind, c.stamp device⟩ : ObjectName).text =
      (stampFromObjectName ⟨vault, kind, c.stamp device⟩).map Stamp.text := by
  have hdirectory : ∃ pre, objectPrefix vault kind = pre ++ [unit '/'] := by
    rw [objectPrefix_eq]
    cases kind with
    | ops => exact ⟨js "vaults/" ++ vault ++ js "/ops", (List.append_assoc _ (js "/ops") [unit '/']).symm⟩
    | snapshot => exact ⟨js "vaults/" ++ vault ++ js "/snapshots", (List.append_assoc _ (js "/snapshots") [unit '/']).symm⟩
  obtain ⟨pre, hpre⟩ := hdirectory
  have hno : unit '/' ∉ physicalText c ++ js "-" ++ counterText c ++ js "-" ++ device ++ js ".edk" := by
    have hdash : unit '/' ∉ js "-" := by decide
    have hedk : unit '/' ∉ js ".edk" := by decide
    have hten : JsNumber.isLowerDigit 10 (unit '/') = false := by decide
    have hsixteen : JsNumber.isLowerDigit 16 (unit '/') = false := by decide
    have hphysical : unit '/' ∉ physicalText c :=
      fun h => Bool.false_ne_true (hten.symm.trans (physicalText_digits c _ h))
    have hcounter : unit '/' ∉ counterText c :=
      fun h => Bool.false_ne_true (hsixteen.symm.trans (counterText_digits c _ h))
    simp only [List.mem_append, not_or]
    exact ⟨⟨⟨⟨⟨hphysical, hdash⟩, hcounter⟩, hdash⟩, hslash⟩, hedk⟩
  rw [text_eq hc, hpre, List.append_assoc, List.singleton_append, stampFromText_append hno]
  have hlen : device.length ≤
      (physicalText c ++ js "-" ++ counterText c ++ js "-" ++ device ++ js ".edk").length := by
    simp only [List.length_append]
    omega
  have hiff := stampPattern_isMatch_iff (c := c) hlen
  unfold stampAt stampFromObjectName
  simp only [true_and, hiff, Clock.stamp_device, List.all_eq_true]
  split_ifs with hd
  · have hedk : (js ".edk").length = 4 := rfl
    rw [List.length_append, hedk, Nat.add_sub_cancel, List.take_left, Option.map_some]
    exact congrArg some (stamp_text hc).symm
  · rfl

/-! ## What is agreed on -/

/-- Client and server agree on the names of operation objects, and on no others. -/
theorem agrees_iff (hv : IsUuid vault) (hc : c.Fits) (hlen : device.length ≤ 32)
    (hdevice : ∀ x ∈ device, isAlnum x = true) (kind : ObjectKind) :
    Agrees ⟨vault, kind, c.stamp device⟩ ↔ kind = .ops ∧ device ≠ [] := by
  constructor
  · exact fun h => ops_of_serverTakes hv hc hdevice h.taken
  · rintro ⟨rfl, hne⟩
    refine ⟨serverTakes_ops hv hc hne hlen hdevice, ?_, serverLists_prefix hv .ops, ?_⟩
    · rw [text_eq hc]
      exact List.prefix_append _ _
    · have hslash : unit '/' ∉ device := by
        intro h
        exact absurd (hdevice _ h) (by decide)
      rw [stampFromText_text hc hslash]
      unfold stampFromObjectName
      rw [if_pos ⟨hne, List.all_eq_true.mpr hdevice⟩]
      rfl

end EasyDocket
