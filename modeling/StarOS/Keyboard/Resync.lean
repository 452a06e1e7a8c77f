import Mathlib.Data.List.Induction
import StarOS.Keyboard.Decode

/-!
# Arbitrary streams of bytes

What the decoder makes of bytes that no keyboard of the document sends.

* `cut`           the stream cut after every byte that completes a scan code, and what is left over;
* `decode_cut`    the decoder looks up the pieces, one after the other, and keeps the rest in
                  `SCAN_CODE`;
* `known_iff`     which complete scan codes are looked up;
* `resyncs_iff`   key presses get through to a decoder exactly if all of `SCAN_CODE` but the byte
                  that is shifted out next is zero;
* `survives_exactly`   both for streams.
-/

namespace StarOS

/-- the number that bytes make in `SCAN_CODE` -/
def scanCodeOf (bs : List UInt8) : Nat := bs.foldl (fun s b => wrap64 ((s <<< 8) + b.toNat)) 0

/-- the pieces, each up to the byte that completes a scan code, and the rest; `piece` are the bytes
since the last cut -/
def cut : List UInt8 → List UInt8 → List (List UInt8) × List UInt8
  | piece, [] => ([], piece)
  | piece, b :: bs =>
    if isCompleteScancode (scanCodeOf (piece ++ [b])) then
      ((piece ++ [b]) :: (cut [] bs).1, (cut [] bs).2)
    else cut (piece ++ [b]) bs

/-- a scan code of one byte -/
def isSingleByte (x : UInt8) : Bool :=
  inRange x.toNat 0x01 0x53 || inRange x.toNat 0x57 0x58 || inRange x.toNat 0x81 0xd3 ||
    inRange x.toNat 0xd7 0xd8

/-- eight copies of any scan code of one byte dispatch an event -/
def Keyboard.Resyncs (k : Keyboard) : Prop :=
  ∀ x, isSingleByte x = true → ∃ k' events, k.feed (List.replicate 8 x) = .ok (k', events) ∧ events ≠ []

/-- the bytes do not halt the kernel, and key presses after them get through -/
def Survives (k : Keyboard) (bs : List UInt8) : Prop :=
  ∃ k' events, k.feed bs = .ok (k', events) ∧ k'.Resyncs

/-! ## the decoder, piece by piece -/

theorem scanCodeOf_snoc (bs : List UInt8) (b : UInt8) :
    scanCodeOf (bs ++ [b]) = wrap64 ((scanCodeOf bs <<< 8) + b.toNat) := by
  rw [scanCodeOf, List.foldl_append]
  rfl

/-- the numbers of the events of complete pieces -/
def eventIds : List (List UInt8) → Except Fatal (List Nat)
  | [] => .ok []
  | p :: ps => (toEventId (scanCodeOf p)).bind fun i => (eventIds ps).map (i :: ·)

theorem decode_cut (piece bs : List UInt8) :
    decode (scanCodeOf piece) bs
      = (eventIds (cut piece bs).1).map fun is => (scanCodeOf (cut piece bs).2, is) := by
  induction bs generalizing piece with
  | nil => rfl
  | cons b bs ih =>
    rw [decode, cut, ← scanCodeOf_snoc]
    by_cases h : isCompleteScancode (scanCodeOf (piece ++ [b])) = true
    · rw [if_pos h, if_pos h, eventIds]
      cases toEventId (scanCodeOf (piece ++ [b])) with
      | error e => rfl
      | ok i =>
        show (decode (scanCodeOf []) bs).map _ = ((eventIds (cut [] bs).1).map _).map _
        rw [ih []]
        cases eventIds (cut [] bs).1 <;> rfl
    · rw [if_neg h, if_neg h]
      exact ih (piece ++ [b])

theorem eventIds_error_iff (ps : List (List UInt8)) :
    (∃ e, eventIds ps = .error e) ↔ ∃ p ∈ ps, (toEventId (scanCodeOf p)).isOk = false := by
  induction ps with
  | nil => simp [eventIds]
  | cons p ps ih =>
    rw [eventIds]
    simp only [List.mem_cons, exists_eq_or_imp]
    rw [← ih]
    cases toEventId (scanCodeOf p) with
    | error e => exact ⟨fun _ => Or.inl rfl, fun _ => ⟨e, rfl⟩⟩
    | ok i =>
      show (∃ e, (eventIds ps).map _ = _) ↔ true = false ∨ _
      cases eventIds ps with
      | error e => exact ⟨fun _ => Or.inr ⟨e, rfl⟩, fun _ => ⟨e, rfl⟩⟩
      | ok is => simp [Except.map]

theorem complete_of_mem_cut {piece bs p : List UInt8} (hp : p ∈ (cut piece bs).1) :
    isCompleteScancode (scanCodeOf p) = true := by
  induction bs generalizing piece with
  | nil => exact absurd hp List.not_mem_nil
  | cons b bs ih =>
    rw [cut] at hp
    by_cases h : isCompleteScancode (scanCodeOf (piece ++ [b])) = true
    · rw [if_pos h] at hp
      rcases List.mem_cons.mp hp with rfl | hp
      · exact h
      · exact ih hp
    · rw [if_neg h] at hp
      exact ih hp

/-! ## complete scan codes -/

/-- the scan codes of the document, as numbers -/
def documentedCodes : List Nat := documented.map fun c => scanCodeOf c.bytes

/-- the scan codes that the bound `0xE09C` and the stray `0xE0` of the tables of `to_event_id` touch -/
def misplacedCodes : List Nat := [0xe09c, 0xe0e0, 0xe0ed]

theorem complete_cases {code : Nat} (h : isCompleteScancode code = true) :
    code < 256 ∨ (∃ l < 256, code = 0xe000 + l) ∨ code = 0xe02ae037 ∨ code = 0xe0b7e0aa ∨
      code = 0xe11d45e19dc5 := by
  rw [isCompleteScancode] at h
  split at h
  · left
    omega
  · split at h
    · right
      left
      have hh : (code &&& 0xff00) >>> 8 = 0xe0 := by
        rw [Bool.and_eq_true] at h
        exact beq_iff_eq.mp h.1
      have hd : code / 256 = 0xe0 := by
        rw [Nat.shiftRight_and_distrib] at hh
        have e : (0xff00 >>> 8 : Nat) = 2^8 - 1 := by decide
        rw [e, Nat.and_two_pow_sub_one_eq_mod, Nat.shiftRight_eq_div_pow] at hh
        omega
      exact ⟨code % 256, Nat.mod_lt _ (by decide), by omega⟩
    · split at h
      · rcases Bool.or_eq_true_iff.mp h with h | h
        · exact Or.inr (Or.inr (Or.inl (beq_iff_eq.mp h)))
        · exact Or.inr (Or.inr (Or.inr (Or.inl (beq_iff_eq.mp h))))
      · split at h
        · exact Or.inr (Or.inr (Or.inr (Or.inr (beq_iff_eq.mp h))))
        · cases h

/-- the complete scan codes of one byte -/
def singleCodes : List Nat := (List.range 256).filter fun c => isCompleteScancode c

/-- the complete scan codes of two bytes that are looked up, with the misplaced ones put right -/
def pairCodes : List Nat := ((List.range 256).map (0xe000 + ·)).filter fun c =>
  isCompleteScancode c && (((toEventId c).isOk && c != 0xe0e0) || c == 0xe09c || c == 0xe0ed)

def longCodes : List Nat := [0xe02ae037, 0xe0b7e0aa, 0xe11d45e19dc5]

/-- the document lists key presses first -/
theorem documentedCodes_eq : documentedCodes =
    singleCodes.filter (· < 0x80) ++ pairCodes.filter (· < 0xe09c) ++ singleCodes.filter (0x80 < ·) ++
      pairCodes.filter (0xe09c ≤ ·) ++ longCodes := by decide +kernel

theorem mem_documentedCodes {c : Nat} :
    c ∈ documentedCodes ↔ (c ∈ singleCodes ∧ c ≠ 0x80) ∨ c ∈ pairCodes ∨ c ∈ longCodes := by
  rw [documentedCodes_eq]
  simp only [List.mem_append, List.mem_filter, decide_eq_true_eq]
  constructor
  · rintro ((((⟨h, hlt⟩ | ⟨h, -⟩) | ⟨h, hlt⟩) | ⟨h, -⟩) | h)
    · exact Or.inl ⟨h, by omega⟩
    · exact Or.inr (Or.inl h)
    · exact Or.inl ⟨h, by omega⟩
    · exact Or.inr (Or.inl h)
    · exact Or.inr (Or.inr h)
  · rintro (⟨h, hne⟩ | h | h)
    · rcases Nat.lt_or_gt_of_ne hne with hlt | hlt
      · exact Or.inl (Or.inl (Or.inl (Or.inl ⟨h, hlt⟩)))
      · exact Or.inl (Or.inl (Or.inr ⟨h, hlt⟩))
    · rcases Nat.lt_or_ge c 0xe09c with hlt | hge
      · exact Or.inl (Or.inl (Or.inl (Or.inr ⟨h, hlt⟩)))
      · exact Or.inl (Or.inr ⟨h, hge⟩)
    · exact Or.inr h

theorem known_pair {l : Nat} (hl : l < 256) (hc : isCompleteScancode (0xe000 + l) = true)
    (hm : 0xe000 + l ∉ misplacedCodes) :
    (toEventId (0xe000 + l)).isOk = true ↔ 0xe000 + l ∈ documentedCodes := by
  have hmem : 0xe000 + l ∈ (List.range 256).map (0xe000 + ·) :=
    List.mem_map_of_mem (List.mem_range.mpr hl)
  simp only [misplacedCodes, List.mem_cons, List.not_mem_nil, or_false, not_or] at hm
  obtain ⟨h1, h2, h3⟩ := hm
  rw [mem_documentedCodes]
  constructor
  · intro hok
    refine Or.inr (Or.inl (List.mem_filter.mpr ⟨hmem, ?_⟩))
    simp [hc, hok, h2]
  · rintro (⟨h, -⟩ | h | h)
    · have hlt := List.mem_range.mp (List.mem_filter.mp h).1
      omega
    · have hp := (List.mem_filter.mp h).2
      simpa [hc, h1, h2, h3] using hp
    · simp only [longCodes, List.mem_cons, List.not_mem_nil, or_false] at h
      omega

/-- apart from the misplaced ones, the document's scan codes are those that are looked up -/
theorem known_iff {code : Nat} (hc : isCompleteScancode code = true) (hm : code ∉ misplacedCodes) :
    (toEventId code).isOk = true ↔ code ∈ documentedCodes := by
  rcases complete_cases hc with h | ⟨l, hl, rfl⟩ | rfl | rfl | rfl
  · have hok : (toEventId code).isOk = true := by
      rw [toEventId, if_pos (by omega)]
      rfl
    have hne : code ≠ 0x80 := by
      rintro rfl
      exact absurd hc (by decide)
    refine iff_of_true hok (mem_documentedCodes.mpr (Or.inl ⟨?_, hne⟩))
    exact List.mem_filter.mpr ⟨List.mem_range.mpr h, hc⟩
  · exact known_pair hl hc hm
  all_goals exact iff_of_true rfl (mem_documentedCodes.mpr (Or.inr (Or.inr (by decide))))

/-! ## resynchronisation -/

theorem single_complete {x : UInt8} (hx : isSingleByte x = true) : isCompleteScancode x.toNat = true := by
  have hlt : x.toNat ≤ 0xff := by
    have h := x.toNat_lt
    omega
  rw [isCompleteScancode, if_pos hlt]
  exact hx

theorem decode_copies {x : UInt8} (hx : isSingleByte x = true) (n : Nat) :
    decode 0 (List.replicate n x) = .ok (0, List.replicate n x.toNat) := by
  have hlt := x.toNat_lt
  have hcode : wrap64 ((0 <<< 8) + x.toNat) = x.toNat := by
    rw [wrap64]
    omega
  have hid : toEventId x.toNat = .ok x.toNat := if_pos (by omega)
  induction n with
  | zero => rfl
  | succ n ih =>
    rw [List.replicate_succ, decode, hcode, if_pos (single_complete hx), hid]
    show (decode 0 (List.replicate n x)).map _ = _
    rw [ih]
    rfl

/-- seven zero bytes in front of a scan code of one byte do no harm -/
theorem decode_copies_of_zero {x : UInt8} (hx : isSingleByte x = true) {s : Nat} (hs : s % 2^56 = 0)
    (n : Nat) : decode s (List.replicate (n + 1) x) = .ok (0, List.replicate (n + 1) x.toNat) := by
  have hcode : wrap64 ((s <<< 8) + x.toNat) = wrap64 ((0 <<< 8) + x.toNat) := by
    rw [wrap64, wrap64, Nat.shiftLeft_eq]
    omega
  rw [← decode_copies hx (n + 1), List.replicate_succ, decode, decode, hcode]

theorem incomplete_of_ones {code : Nat} (h : code % 2^16 = 0x0101) : isCompleteScancode code = false := by
  rw [Bool.eq_false_iff]
  intro hc
  rcases complete_cases hc with h' | ⟨l, hl, h'⟩ | h' | h' | h' <;> omega

/-- after a byte `01` the decoder is not woken by more of them -/
theorem decode_ones {s : Nat} (hs : s % 256 = 1) (n : Nat) :
    ∃ t, decode s (List.replicate n 0x01) = .ok (t, []) := by
  induction n generalizing s with
  | zero => exact ⟨s, rfl⟩
  | succ n ih =>
    have e : wrap64 ((s <<< 8) + (0x01 : UInt8).toNat) % 2^16 = 0x0101 := by
      rw [wrap64, Nat.shiftLeft_eq]
      show (s * 2^8 + 1) % 2^64 % 2^16 = 0x0101
      omega
    obtain ⟨t, ht⟩ := ih (s := wrap64 ((s <<< 8) + (0x01 : UInt8).toNat)) (by omega)
    refine ⟨t, ?_⟩
    rw [List.replicate_succ, decode, incomplete_of_ones e, if_neg Bool.false_ne_true]
    exact ht

/-- a byte `01` after something else completes no scan code that is looked up -/
theorem decode_ones_of_nonzero {s : Nat} (hs : s % 2^56 ≠ 0) (n : Nat) {t : Nat} {is : List Nat}
    (h : decode s (List.replicate (n + 1) 0x01) = .ok (t, is)) : is = [] := by
  have e : wrap64 ((s <<< 8) + (0x01 : UInt8).toNat) = 256 * (s % 2^56) + 1 := by
    rw [wrap64, Nat.shiftLeft_eq]
    show (s * 2^8 + 1) % 2^64 = _
    omega
  rw [List.replicate_succ, decode, e] at h
  by_cases hc : isCompleteScancode (256 * (s % 2^56) + 1) = true
  · have hcode : 256 * (s % 2^56) + 1 = 0xe001 := by
      rcases complete_cases hc with h' | ⟨l, hl, h'⟩ | h' | h' | h' <;> omega
    rw [if_pos hc, hcode] at h
    cases h
  · rw [if_neg hc] at h
    obtain ⟨u, hu⟩ := decode_ones (s := 256 * (s % 2^56) + 1) (by omega) n
    rw [hu] at h
    cases h
    rfl

theorem feed_of_decode {k : Keyboard} {bs : List UInt8} {s : Nat} {is : List Nat}
    (h : decode k.scanCode bs = .ok (s, is)) :
    ∃ k', k.feed bs = .ok (k', is.map keyevent) ∧ k'.scanCode = s := by
  have hf := feed_decode k bs
  rw [h] at hf
  cases he : k.feed bs with
  | error e =>
    rw [he] at hf
    cases hf
  | ok t =>
    rw [he] at hf
    obtain ⟨h1, h2⟩ := Prod.mk.inj (Except.ok.inj hf)
    have h2 : t.2 = is.map keyevent := h2
    exact ⟨t.1, by rw [← h2], h1⟩

theorem feed_of_decode_error {k : Keyboard} {bs : List UInt8} {e : Fatal}
    (h : decode k.scanCode bs = .error e) : k.feed bs = .error e := by
  have hf := feed_decode k bs
  rw [h] at hf
  cases he : k.feed bs with
  | error e' =>
    rw [he] at hf
    cases hf
    rfl
  | ok t =>
    rw [he] at hf
    cases hf

theorem resyncs_iff (k : Keyboard) : k.Resyncs ↔ k.scanCode % 2^56 = 0 := by
  constructor
  · intro h
    by_contra hne
    obtain ⟨k', events, hf, hev⟩ := h 0x01 (by decide)
    cases hd : decode k.scanCode (List.replicate 8 0x01) with
    | error e =>
      rw [feed_of_decode_error hd] at hf
      cases hf
    | ok t =>
      obtain ⟨s, is⟩ := t
      obtain ⟨k'', hf', -⟩ := feed_of_decode hd
      rw [hf', decode_ones_of_nonzero hne 7 hd] at hf
      cases hf
      exact hev rfl
  · intro hz x hx
    obtain ⟨k', hf, -⟩ := feed_of_decode (decode_copies_of_zero hx hz 7)
    exact ⟨k', _, hf, by simp⟩

/-- the lowest bytes of `SCAN_CODE` are the last bytes of the piece -/
theorem scanCodeOf_mod (bs : List UInt8) {n : Nat} (hn : n ≤ 8) :
    scanCodeOf bs % 2^(8 * n) = 0 ↔ ∀ b ∈ bs.reverse.take n, b = 0 := by
  induction bs using List.reverseRecOn generalizing n with
  | nil => simp [scanCodeOf]
  | append_singleton bs b ih =>
    cases n with
    | zero => simp [Nat.mod_one]
    | succ n =>
      have hb := b.toNat_lt
      have e : scanCodeOf (bs ++ [b]) % 2^(8 * (n + 1))
          = 256 * (scanCodeOf bs % 2^(8 * n)) + b.toNat := by
        have hdvd : 2^(8 * (n + 1)) ∣ 2^64 := Nat.pow_dvd_pow 2 (by omega)
        rw [scanCodeOf_snoc, wrap64, Nat.mod_mod_of_dvd _ hdvd, Nat.shiftLeft_eq, Nat.mul_comm,
          show 2^(8 * (n + 1)) = 256 * 2^(8 * n) by rw [Nat.mul_add, Nat.pow_add, Nat.mul_comm]]
        rw [Nat.mod_mul, Nat.mul_add_mod, Nat.mod_eq_of_lt hb,
          show (256 * scanCodeOf bs + b.toNat) / 256 = scanCodeOf bs by omega, Nat.add_comm]
      have hzero : b.toNat = 0 ↔ b = 0 := ⟨fun h => UInt8.toNat_inj.mp h, fun h => h ▸ rfl⟩
      rw [e, List.reverse_append, List.reverse_singleton, List.singleton_append, List.take_succ_cons,
        List.forall_mem_cons, ← ih (by omega), ← hzero]
      omega

/-! ## streams -/

/-- **Cut a stream after every byte that completes a scan code: without a misplaced code the bytes halt the kernel
exactly if one of the codes cut off is not in the document, and if they do not halt it, key presses after them get
through exactly if the last seven bytes after the last cut are zero.** -/
theorem survives_exactly (k : Keyboard) (hk : k.scanCode = 0) (bs : List UInt8) :
    ((∀ p ∈ (cut [] bs).1, scanCodeOf p ∉ misplacedCodes) →
      ((∃ e, k.feed bs = .error e) ↔ ∃ p ∈ (cut [] bs).1, scanCodeOf p ∉ documentedCodes)) ∧
    ∀ k' events, k.feed bs = .ok (k', events) →
      (k'.Resyncs ↔ ∀ b ∈ (cut [] bs).2.reverse.take 7, b = 0) := by
  have hd := decode_cut [] bs
  rw [show scanCodeOf [] = k.scanCode from hk.symm] at hd
  have hunknown (hm : ∀ p ∈ (cut [] bs).1, scanCodeOf p ∉ misplacedCodes) :
      (∃ e, eventIds (cut [] bs).1 = .error e) ↔ ∃ p ∈ (cut [] bs).1, scanCodeOf p ∉ documentedCodes := by
    rw [eventIds_error_iff]
    refine exists_congr fun p => and_congr_right fun hp => ?_
    rw [← known_iff (complete_of_mem_cut hp) (hm p hp), Bool.not_eq_true]
  cases he : eventIds (cut [] bs).1 with
  | error e =>
    rw [he] at hd hunknown
    have hf := feed_of_decode_error hd
    refine ⟨fun hm => iff_of_true ⟨e, hf⟩ ((hunknown hm).mp ⟨e, rfl⟩), fun k' events h => ?_⟩
    rw [hf] at h
    cases h
  | ok is =>
    rw [he] at hd hunknown
    obtain ⟨k₁, hf, hs⟩ := feed_of_decode hd
    refine ⟨fun hm => ?_, fun k' events h => ?_⟩
    · rw [hf, ← hunknown hm]
      simp
    · rw [hf] at h
      cases h
      rw [resyncs_iff, hs]
      exact scanCodeOf_mod (cut [] bs).2 (n := 7) (by decide)

/-- `A` pressed and released survives -/
theorem survives_exactly_two :
    ∃ k', Keyboard.boot.feed [0x1e, 0x9e] = .ok (k', [keyevent 0x1e, keyevent 0x9e]) ∧ k'.Resyncs := by
  have h := survives_exactly Keyboard.boot rfl [0x1e, 0x9e]
  have hd : decode 0 [0x1e, 0x9e] = .ok (0, [0x1e, 0x9e]) := rfl
  obtain ⟨k', hf, -⟩ := feed_of_decode (k := Keyboard.boot) hd
  exact ⟨k', hf, (h.2 k' _ hf).mpr (by decide +kernel)⟩

/-- **The bytes `E0 00` halt the kernel, and an acknowledge byte `FA` leaves a decoder that no key
press gets through to.** -/
theorem stray_bytes_not_survived :
    ¬ Survives Keyboard.boot [0xe0, 0x00] ∧ ¬ Survives Keyboard.boot [0xfa] := by
  constructor
  · rintro ⟨k', events, hf, -⟩
    have h : Keyboard.boot.feed [0xe0, 0x00] = .error (.invalidScanCode 0x00) := rfl
    rw [h] at hf
    cases hf
  · rintro ⟨k', events, hf, hr⟩
    have h : Keyboard.boot.feed [0xfa] = .ok ({ Keyboard.boot with scanCode := 0xfa }, []) := rfl
    rw [h] at hf
    cases hf
    exact absurd ((resyncs_iff _).mp hr) (by decide)

end StarOS
