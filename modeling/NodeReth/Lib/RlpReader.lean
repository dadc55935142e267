import NodeReth.Lib.Readers
import NodeReth.Lib.Rlp

/-!
# Canonical readers of recursive length prefixes

Readers that accept the shortest form of a header and of a number only. Each is exact for its
writer, and framing and repetition keep readers exact.
-/

namespace RlpFormat

open Bytes List Nat Readers

variable {fuel n : ℕ} {b : Bytes} {isList l : Bool} {rest : Bytes}

/-! ## Numbers without leading zeros -/

theorem natBytesWithin_eq_of_lt {fuel' : ℕ} (h : n < 256 ^ fuel) (h' : n < 256 ^ fuel') :
    natBytesWithin fuel n = natBytesWithin fuel' n := by
  induction fuel generalizing fuel' n with
  | zero =>
    rw [pow_zero, lt_one_iff] at h
    cases fuel' <;> simp [natBytesWithin, h]
  | succ fuel ih =>
    cases fuel' with
    | zero =>
      rw [pow_zero, lt_one_iff] at h'
      simp [natBytesWithin, h']
    | succ fuel' =>
      unfold natBytesWithin
      rw [ih (by omega) (by omega : n / 256 < 256 ^ fuel')]

theorem natBytes_succ (h : 0 < n) : natBytes n = natBytes (n / 256) ++ [UInt8.ofNat n] := by
  have hlt : n < 256 ^ n := Nat.lt_pow_self (by norm_num)
  have hlt' : n / 256 < 256 ^ (n / 256) := Nat.lt_pow_self (by norm_num)
  obtain ⟨m, rfl⟩ := exists_eq_succ_of_ne_zero h.ne'
  have hdiv : (m + 1) / 256 < 256 ^ m := by
    omega
  rw [natBytes, natBytesWithin, if_neg h.ne', natBytes, natBytesWithin_eq_of_lt hdiv hlt']

theorem natBytes_zero : natBytes 0 = [] := rfl

/-- A byte string without a leading zero is the shortest form of its number. -/
theorem natBytes_ofBe (h : b.head? ≠ some 0) : natBytes (ofBe b) = b := by
  induction b using reverseRecOn with
  | nil => rfl
  | append_singleton b x ih =>
    have hx : x.toNat < 256 := x.toNat_lt
    have hb : b.head? ≠ some 0 := by
      cases b with
      | nil => simp
      | cons y b => simpa using h
    have hpos : 0 < ofBe (b ++ [x]) := by
      rw [ofBe_concat]
      by_contra hzero
      have hofBe : ofBe b = 0 := by omega
      have hnil : b = [] := by rw [← ih hb, hofBe, natBytes_zero]
      subst hnil
      have hx0 : x.toNat = 0 := by omega
      apply h
      simp [UInt8.toNat_inj.mp (hx0.trans UInt8.toNat_zero.symm)]
    rw [natBytes_succ hpos, ofBe_concat]
    have hdiv : (ofBe b * 256 + x.toNat) / 256 = ofBe b := by omega
    have hmod : UInt8.ofNat (ofBe b * 256 + x.toNat) = x := by
      apply UInt8.toNat_inj.mp
      rw [UInt8.toNat_ofNat']
      omega
    rw [hdiv, hmod, ih hb]

theorem head_natBytes (n : ℕ) : (natBytes n).head? ≠ some 0 := by
  induction n using Nat.strongRecOn with
  | _ n ih =>
    rcases Nat.eq_zero_or_pos n with rfl | hpos
    · simp [natBytes_zero]
    · rw [natBytes_succ hpos]
      rcases Nat.eq_zero_or_pos (n / 256) with hzero | hdiv
      · rw [hzero, natBytes_zero]
        intro h
        have hn : (UInt8.ofNat n).toNat = 0 := congrArg UInt8.toNat (Option.some.inj h)
        rw [UInt8.toNat_ofNat'] at hn
        omega
      · rw [head?_append_of_ne_nil _ (natBytes_ne_nil hdiv)]
        exact ih _ (by omega)

/-! ## Headers -/

inductive RlpError
  | overflow
  | leadingZero
  | inputTooShort
  | nonCanonicalSingleByte
  | nonCanonicalSize
  | unexpectedLength
  | unexpectedString
  | unexpectedList
  | listLengthMismatch (expected got : ℕ)
  | custom (text : String)
  deriving DecidableEq, Repr

/-- The announced payload has to be there. -/
def announce (isList : Bool) (n : ℕ) (rest : Bytes) : Except RlpError ((Bool × ℕ) × Bytes) :=
  if rest.length < n then .error .inputTooShort else .ok ((isList, n), rest)

/-- A length of `k` bytes, of the shortest form and only where a short header would not do. -/
def longHeader (isList : Bool) (k : ℕ) (b : Bytes) : Except RlpError ((Bool × ℕ) × Bytes) :=
  if b.length < k then .error .inputTooShort
  else if b.head? = some 0 then .error .leadingZero
  else if ofBe (b.take k) < 56 then .error .nonCanonicalSize
  else announce isList (ofBe (b.take k)) (b.drop k)

/-- Whether a list follows and how long its payload is. A byte below `0x80` is a payload of its own
and is not consumed; it must not stand behind a header. -/
def decodeHeader : Reader RlpError (Bool × ℕ)
  | [] => .error .inputTooShort
  | x :: rest =>
    if x.toNat < 0x80 then .ok ((false, 1), x :: rest)
    else if x.toNat < 0xb8 then
      if x.toNat = 0x81 ∧ (rest.headD 0x80).toNat < 0x80 then .error .nonCanonicalSingleByte
      else announce false (x.toNat - 0x80) rest
    else if x.toNat < 0xc0 then longHeader false (x.toNat - 0xb7) rest
    else if x.toNat < 0xf8 then announce true (x.toNat - 0xc0) rest
    else longHeader true (x.toNat - 0xf7) rest

/-- The first byte of a header, less the length. -/
def headerBase (isList : Bool) : ℕ := if isList then 0xc0 else 0x80

theorem announce_ok {m : ℕ} (h : announce isList n b = .ok ((l, m), rest)) :
    l = isList ∧ m = n ∧ rest = b ∧ m ≤ rest.length := by
  unfold announce at h
  split_ifs at h with hlen
  cases h
  exact ⟨rfl, rfl, rfl, not_lt.mp hlen⟩

theorem header_short {base : ℕ} (hn : n < 56) {x : UInt8} (hx : x.toNat = base + n) :
    header base n = [x] := by
  rw [header, if_pos hn, ← hx, UInt8.ofNat_toNat]

theorem header_long {base : ℕ} (hn : 56 ≤ n) {x : UInt8}
    (hx : x.toNat = base + 55 + (natBytes n).length) : header base n = x :: natBytes n := by
  rw [header, if_neg (by omega), ← hx, UInt8.ofNat_toNat]

theorem longHeader_ok {k : ℕ} (hk : k ≤ 8) (h : longHeader isList k b = .ok ((l, n), rest)) :
    l = isList ∧ n ≤ rest.length ∧ 56 ≤ n ∧ n < 2 ^ 64 ∧ (natBytes n).length = k ∧
      b = natBytes n ++ rest := by
  unfold longHeader at h
  split_ifs at h with hlen hhead hlong
  obtain ⟨rfl, rfl, rfl, hle⟩ := announce_ok h
  have htake : (b.take k).length = k := by rw [length_take]; omega
  have hhead' : (b.take k).head? ≠ some 0 := by
    cases k with
    | zero => simp
    | succ k =>
      cases b with
      | nil => simp
      | cons y b => simpa using hhead
  have hbytes := natBytes_ofBe hhead'
  refine ⟨rfl, hle, not_lt.mp hlong, ?_, by rw [hbytes, htake], ?_⟩
  · calc ofBe (b.take k) < 256 ^ (b.take k).length := ofBe_lt _
      _ = 256 ^ k := by rw [htake]
      _ ≤ 256 ^ 8 := Nat.pow_le_pow_right (by norm_num) hk
      _ = 2 ^ 64 := by norm_num
  · rw [hbytes, take_append_drop]

/-- The bytes that a header was read from: a single byte, or a header of the shortest form. -/
theorem decodeHeader_ok (h : decodeHeader b = .ok ((l, n), rest)) : n ≤ rest.length ∧ n < 2 ^ 64 ∧
    ((l = false ∧ n = 1 ∧ rest = b ∧ ∃ x tail, b = x :: tail ∧ x.toNat < 0x80) ∨
      (b = header (headerBase l) n ++ rest ∧ (l = false → n = 1 → 0x80 ≤ (rest.headD 0x80).toNat))) := by
  cases b with
  | nil => cases h
  | cons x tail =>
    have hx : x.toNat < 256 := x.toNat_lt
    dsimp only [decodeHeader] at h
    split_ifs at h with hsingle hstring hbad hlongString hlist
    · cases h
      exact ⟨by simp, by norm_num, .inl ⟨rfl, rfl, rfl, x, tail, rfl, hsingle⟩⟩
    · obtain ⟨rfl, hn, rfl, hle⟩ := announce_ok h
      have hheader : header 0x80 n = [x] := header_short (by omega) (by omega)
      refine ⟨hle, by omega, .inr ⟨by simp [headerBase, hheader], fun _ hone => ?_⟩⟩
      by_contra hlt
      exact hbad ⟨by omega, not_le.mp hlt⟩
    · obtain ⟨rfl, hle, hlong, hlt, hlen, rfl⟩ := longHeader_ok (by omega) h
      have hheader : header 0x80 n = x :: natBytes n := header_long hlong (by omega)
      exact ⟨hle, hlt, .inr ⟨by simp [headerBase, hheader], fun _ hone => by omega⟩⟩
    · obtain ⟨rfl, hn, rfl, hle⟩ := announce_ok h
      have hheader : header 0xc0 n = [x] := header_short (by omega) (by omega)
      exact ⟨hle, by omega, .inr ⟨by simp [headerBase, hheader], nofun⟩⟩
    · obtain ⟨rfl, hle, hlong, hlt, hlen, rfl⟩ := longHeader_ok (by omega) h
      have hheader : header 0xc0 n = x :: natBytes n := header_long hlong (by omega)
      exact ⟨hle, hlt, .inr ⟨by simp [headerBase, hheader], nofun⟩⟩

theorem longHeader_natBytes (isList : Bool) (hn : 56 ≤ n) (hlen : n ≤ rest.length) :
    longHeader isList (natBytes n).length (natBytes n ++ rest) = .ok ((isList, n), rest) := by
  have hne : natBytes n ≠ [] := natBytes_ne_nil (by omega)
  unfold longHeader announce
  rw [take_left, drop_left, ofBe_natBytes, head?_append_of_ne_nil _ hne,
    if_neg (by simp), if_neg (head_natBytes n), if_neg (by omega), if_neg (by omega)]

theorem decodeHeader_header (isList : Bool) (hn : n < 2 ^ 64) (hlen : n ≤ rest.length)
    (hsingle : isList = false → n = 1 → 0x80 ≤ (rest.headD 0x80).toNat) :
    decodeHeader (header (headerBase isList) n ++ rest) = .ok ((isList, n), rest) := by
  obtain ⟨x, ⟨hheader, hshort, hx⟩ | ⟨hheader, hlong, hx, hpos, hbytes⟩⟩ :=
    header_cases (headerBase isList) hn (by cases isList <;> decide)
  · rw [hheader, singleton_append, decodeHeader]
    grind [headerBase, announce]
  · rw [hheader, cons_append, decodeHeader, ← longHeader_natBytes isList hlong hlen]
    grind [headerBase]

theorem decodeHeader_list (h : b.length < 2 ^ 64) :
    decodeHeader (header 0xc0 b.length ++ (b ++ rest)) = .ok ((true, b.length), b ++ rest) :=
  decodeHeader_header true h (by simp) nofun

/-! ## Strings and numbers -/

/-- The payload of a string or of a list. -/
def readBytes (isList : Bool) : Reader RlpError Bytes := do
  let (list, n) ← decodeHeader
  rejectIf (list ≠ isList) (if isList then .unexpectedString else .unexpectedList)
  let b ← get
  set (b.drop n)
  return b.take n

def readUint (w : ℕ) : Reader RlpError ℕ := do
  let digits ← readBytes false
  rejectIf (w < digits.length) .overflow
  rejectIf (digits.head? = some 0) .leadingZero
  return ofBe digits

def readFixed (n : ℕ) : Reader RlpError (FixedBytes n) := do
  let b ← readBytes false
  expect (FixedBytes.tryFrom n b) .unexpectedLength

theorem readBytes_of_header (h : decodeHeader b = .ok ((isList, n), rest)) :
    readBytes isList b = .ok (rest.take n, rest.drop n) := by
  exact bind_ok_iff.mpr ⟨_, _, h, bind_ok_iff.mpr ⟨(), rest,
    rejectIf_ok_iff.mpr ⟨not_not.mpr rfl, rfl⟩, rfl⟩⟩

theorem readBytes_ok {payload : Bytes} (h : readBytes isList b = .ok (payload, rest)) :
    ∃ n mid, decodeHeader b = .ok ((isList, n), mid) ∧ payload = mid.take n ∧ rest = mid.drop n := by
  obtain ⟨⟨list, n⟩, mid, hheader, h⟩ := bind_ok_iff.mp h
  obtain ⟨_, mid', hkind, htail⟩ := bind_ok_iff.mp h
  obtain ⟨hsame, rfl⟩ := rejectIf_ok_iff.mp hkind
  have hlist := not_not.mp hsame
  subst hlist
  cases htail
  exact ⟨n, mid, hheader, rfl, rfl⟩

theorem decodeHeader_writeString (h : b.length < 2 ^ 64) :
    decodeHeader (writeString b ++ rest) = .ok ((false, b.length), b ++ rest) := by
  rcases writeString_cases b with ⟨x, rfl, hx, hbytes⟩ | ⟨hlong, hbytes⟩
  · rw [hbytes, singleton_append, decodeHeader, if_pos hx]
    rfl
  · rw [hbytes, append_assoc]
    refine decodeHeader_header false h (by simp) fun _ hone => ?_
    obtain ⟨x, rfl⟩ := length_eq_one_iff.mp hone
    exact hlong x rfl

theorem readBytes_writeString (h : b.length < 2 ^ 64) :
    readBytes false (writeString b ++ rest) = .ok (b, rest) := by
  rw [readBytes_of_header (decodeHeader_writeString h), take_left, drop_left]

theorem readBytes_exact : Exact writeString (fun _ => True) (readBytes false) where
  read_write b rest _ hlen := readBytes_writeString (length_lt_of_writeString hlen)
  of_read b payload rest h := by
    obtain ⟨n, mid, hheader, rfl, rfl⟩ := readBytes_ok h
    obtain ⟨hle, -, ⟨-, rfl, rfl, x, tail, rfl, hx⟩ | ⟨rfl, hsingle⟩⟩ := decodeHeader_ok hheader
    · simp [writeString, hx]
    · have hlen : (mid.take n).length = n := by rw [length_take]; omega
      refine ⟨?_, trivial⟩
      have hwrite : writeString (mid.take n) = header 0x80 n ++ mid.take n := by
        by_cases hone : n = 1
        · subst hone
          obtain ⟨x, tail, rfl⟩ := exists_cons_of_length_pos hle
          have hx : ¬x.toNat < 0x80 := not_lt.mpr (hsingle rfl rfl)
          simp [writeString, hx]
        · rw [writeString_eq (by omega), hlen]
      rw [hwrite, append_assoc, take_append_drop]
      rfl

theorem readList_exact : Exact writeList (fun _ => True) (readBytes true) where
  read_write b rest _ hlen := by
    have hb : b.length < 2 ^ 64 := by
      rw [writeList, length_append] at hlen
      omega
    rw [writeList, append_assoc, readBytes_of_header (decodeHeader_list hb), take_left, drop_left]
  of_read b payload rest h := by
    obtain ⟨n, mid, hheader, rfl, rfl⟩ := readBytes_ok h
    obtain ⟨hle, -, ⟨hfalse, -⟩ | ⟨rfl, -⟩⟩ := decodeHeader_ok hheader
    · cases hfalse
    · have hlen : (mid.take n).length = n := by rw [length_take]; omega
      rw [writeList, hlen, append_assoc, take_append_drop]
      exact ⟨rfl, trivial⟩

theorem readUint_exact (w : ℕ) (hw : w < 2 ^ 64) :
    Exact writeNat (fun n => n < 256 ^ w) (readUint w) where
  read_write n rest hn _ := by
    have hlen : (natBytes n).length ≤ w := length_natBytesWithin_le hn
    refine bind_ok_iff.mpr ⟨natBytes n, rest, readBytes_writeString (by omega), ?_⟩
    refine bind_ok_iff.mpr ⟨(), rest, rejectIf_ok_iff.mpr ⟨not_lt.mpr hlen, rfl⟩, ?_⟩
    refine bind_ok_iff.mpr ⟨(), rest, rejectIf_ok_iff.mpr ⟨head_natBytes n, rfl⟩, ?_⟩
    exact pure_ok_iff.mpr ⟨ofBe_natBytes n, rfl⟩
  of_read b n rest h := by
    obtain ⟨digits, mid, hdigits, h⟩ := bind_ok_iff.mp h
    obtain ⟨_, _, hlen, h⟩ := bind_ok_iff.mp h
    obtain ⟨_, _, hhead, h⟩ := bind_ok_iff.mp h
    obtain ⟨hshort, rfl⟩ := rejectIf_ok_iff.mp hlen
    obtain ⟨hminimal, rfl⟩ := rejectIf_ok_iff.mp hhead
    obtain ⟨rfl, rfl⟩ := pure_ok_iff.mp h
    have hle := Nat.pow_le_pow_right (by norm_num : 0 < 256) (not_lt.mp hshort)
    refine ⟨?_, (ofBe_lt digits).trans_le hle⟩
    rw [writeNat, natBytes_ofBe hminimal]
    exact (readBytes_exact.of_read b digits mid hdigits).1

theorem readFixed_exact (n : ℕ) :
    Exact (fun b : FixedBytes n => writeString b.val) (fun _ => True) (readFixed n) where
  read_write b rest _ hlen := by
    refine bind_ok_iff.mpr ⟨b.val, rest, readBytes_exact.read_write b.val rest trivial hlen, ?_⟩
    exact expect_ok_iff.mpr ⟨FixedBytes.tryFrom_val b, rfl⟩
  of_read b c rest h := by
    obtain ⟨raw, mid, hraw, h⟩ := bind_ok_iff.mp h
    obtain ⟨hsome, rfl⟩ := expect_ok_iff.mp h
    have hval : c.val = raw := by
      unfold FixedBytes.tryFrom at hsome
      split_ifs at hsome
      cases hsome
      rfl
    rw [hval]
    exact readBytes_exact.of_read b raw mid hraw

/-! ## Framing and repetition -/

variable {α : Type} {write : α → Bytes} {ok : α → Prop} {read : Reader RlpError α}

/-- The fields of a list, which have to take up the payload that its header announces. -/
def readFramed (fields : Reader RlpError α) : Reader RlpError α := do
  let (list, n) ← decodeHeader
  rejectIf (list = false) .unexpectedString
  let started ← get
  let a ← fields
  let rest ← get
  rejectIf (started.length - rest.length ≠ n) (.listLengthMismatch n (started.length - rest.length))
  return a

theorem readFramed_exact (h : Exact write ok read) :
    Exact (fun a => writeList (write a)) ok (readFramed read) where
  read_write a rest ha hlen := by
    have hwrite : (write a).length < 2 ^ 64 := by
      rw [writeList, length_append] at hlen
      omega
    rw [writeList, append_assoc]
    refine bind_ok_iff.mpr ⟨_, _, decodeHeader_list hwrite, bind_ok_iff.mpr ⟨(), _,
      rejectIf_ok_iff.mpr ⟨Bool.noConfusion, rfl⟩, ?_⟩⟩
    refine bind_ok_iff.mpr ⟨_, _, get_ok_iff.mpr ⟨rfl, rfl⟩, bind_ok_iff.mpr ⟨a, rest,
      h.read_write a rest ha hwrite, ?_⟩⟩
    refine bind_ok_iff.mpr ⟨_, _, get_ok_iff.mpr ⟨rfl, rfl⟩, bind_ok_iff.mpr ⟨(), rest,
      rejectIf_ok_iff.mpr ⟨not_not.mpr ?_, rfl⟩, rfl⟩⟩
    rw [length_append, Nat.add_sub_cancel]
  of_read b a rest hread := by
    obtain ⟨⟨list, n⟩, mid, hheader, hread⟩ := bind_ok_iff.mp hread
    obtain ⟨_, _, hlist, hread⟩ := bind_ok_iff.mp hread
    obtain ⟨htrue, rfl⟩ := rejectIf_ok_iff.mp hlist
    obtain ⟨_, _, hget, hread⟩ := bind_ok_iff.mp hread
    obtain ⟨rfl, rfl⟩ := get_ok_iff.mp hget
    obtain ⟨c, end', hfields, hread⟩ := bind_ok_iff.mp hread
    obtain ⟨_, _, hget', hread⟩ := bind_ok_iff.mp hread
    obtain ⟨rfl, rfl⟩ := get_ok_iff.mp hget'
    obtain ⟨_, _, hconsumed, hread⟩ := bind_ok_iff.mp hread
    obtain ⟨hlen, rfl⟩ := rejectIf_ok_iff.mp hconsumed
    obtain ⟨rfl, rfl⟩ := pure_ok_iff.mp hread
    obtain ⟨hmid, hok⟩ := h.of_read _ _ _ hfields
    obtain ⟨-, -, ⟨hfalse, -⟩ | ⟨hb, -⟩⟩ := decodeHeader_ok hheader
    · exact absurd hfalse htrue
    · have hn : n = (write c).length := by
        have hcount := not_not.mp hlen
        rw [hmid, length_append] at hcount
        omega
      rw [Bool.eq_true_of_not_eq_false htrue] at hb
      refine ⟨?_, hok⟩
      rw [hb, hmid, hn, writeList, append_assoc]
      rfl

/-- Reads items up to the end of a payload. Each of them takes a byte at least, so that the length of
the payload is fuel enough. -/
def readItems (read : Reader RlpError α) : ℕ → Bytes → Except RlpError (List α)
  | 0, b => if b = [] then .ok [] else .error .overflow
  | fuel + 1, b =>
    if b = [] then .ok []
    else do
      let (a, rest) ← read b
      return a :: (← readItems read fuel rest)

def readVec (read : Reader RlpError α) : Reader RlpError (List α) := do
  let payload ← readBytes true
  liftM (readItems read payload.length payload)

theorem readItems_flatMap (h : Exact write ok read) (hne : ∀ a, write a ≠ []) {l : List α}
    (hfuel : (l.flatMap write).length ≤ fuel) (hok : ∀ a ∈ l, ok a)
    (hlen : (l.flatMap write).length < 2 ^ 64) : readItems read fuel (l.flatMap write) = .ok l := by
  induction l generalizing fuel with
  | nil => cases fuel <;> rfl
  | cons a l ih =>
    rw [flatMap_cons, length_append] at hlen hfuel
    have hpos := length_pos_iff.mpr (hne a)
    obtain ⟨fuel, rfl⟩ := exists_eq_succ_of_ne_zero (by omega : fuel ≠ 0)
    have hread := h.read_write a (l.flatMap write) (hok a mem_cons_self) (by omega)
    have hrest := ih (by omega : (l.flatMap write).length ≤ fuel)
      (fun c hc => hok c (mem_cons_of_mem a hc)) (by omega)
    rw [readItems, if_neg (by simp [hne a])]
    exact Fallible.bind_ok_iff.mpr ⟨_, hread, Fallible.bind_ok_iff.mpr ⟨_, hrest, rfl⟩⟩

theorem readItems_ok (h : Exact write ok read) {l : List α}
    (hread : readItems read fuel b = .ok l) : b = l.flatMap write ∧ ∀ a ∈ l, ok a := by
  induction fuel generalizing b l with unfold readItems at hread
  | zero =>
    split_ifs at hread with hb
    cases hread
    exact ⟨hb, nofun⟩
  | succ fuel ih =>
    split_ifs at hread with hb
    · cases hread
      exact ⟨hb, nofun⟩
    · obtain ⟨⟨a, rest⟩, ha, hread⟩ := Fallible.bind_ok_iff.mp hread
      obtain ⟨l', hl', hread⟩ := Fallible.bind_ok_iff.mp hread
      cases Fallible.pure_ok_iff.mp hread
      obtain ⟨rfl, hok⟩ := h.of_read _ _ _ ha
      obtain ⟨rfl, hall⟩ := ih hl'
      exact ⟨flatMap_cons.symm, forall_mem_cons.mpr ⟨hok, hall⟩⟩

theorem readVec_exact (h : Exact write ok read) (hne : ∀ a, write a ≠ []) :
    Exact (fun l => writeList (l.flatMap write)) (fun l => ∀ a ∈ l, ok a) (readVec read) where
  read_write l rest hok hlen := by
    have hpayload : (l.flatMap write).length < 2 ^ 64 := by
      rw [writeList, length_append] at hlen
      omega
    exact bind_ok_iff.mpr ⟨_, _, readList_exact.read_write _ rest trivial hlen,
      lift_ok_iff.mpr ⟨readItems_flatMap h hne le_rfl hok hpayload, rfl⟩⟩
  of_read b l rest hread := by
    obtain ⟨payload, mid, hpayload, hlift⟩ := bind_ok_iff.mp hread
    obtain ⟨hitems, rfl⟩ := lift_ok_iff.mp hlift
    obtain ⟨rfl, hok⟩ := readItems_ok h hitems
    exact ⟨(readList_exact.of_read b _ mid hpayload).1, hok⟩

theorem writeList_ne_nil (payload : Bytes) : writeList payload ≠ [] := by
  simp [writeList, header_ne_nil]

end RlpFormat
