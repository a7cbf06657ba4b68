import Stss.ForStd.BigEndian

/-!
# Binary formats

A `Codec` is a self-delimiting format for the values of a type: writing may be refused,
reading takes a value from the front of a byte string and leaves the bytes behind it. The
laws are fields, so every format that is built here round-trips, has no two values with
one encoding, and rejects what is cut short.
-/

namespace ForStd

variable {α β : Type}

/-- A format for values of type `α`.

* `decode_encode`: what was written is read back, whatever follows.
* `decode_append`: what is read does not depend on the bytes behind it. -/
structure Codec (α : Type) where
  encode : α → Option (List UInt8)
  decode : List UInt8 → Option (α × List UInt8)
  decode_encode : ∀ {a bs}, encode a = some bs → ∀ rest, decode (bs ++ rest) = some (a, rest)
  decode_append : ∀ {bs a rest}, decode bs = some (a, rest) →
    ∀ more, decode (bs ++ more) = some (a, rest ++ more)

namespace Codec

/-! ## Whole messages -/

/-- Read a message. Bytes behind it are ignored. -/
def deserialize (c : Codec α) (bs : List UInt8) : Option α := (c.decode bs).map (·.1)

variable {c : Codec α} {d : Codec β} {a a' : α} {bs : List UInt8}

theorem deserialize_encode (h : c.encode a = some bs) : c.deserialize bs = some a := by
  have hdec := c.decode_encode h []
  rw [List.append_nil] at hdec
  rw [deserialize, hdec, Option.map_some]

/-- No two values have one encoding. -/
theorem encode_inj (h : c.encode a = some bs) (h' : c.encode a' = some bs) : a = a' := by
  have heq := deserialize_encode h
  rw [deserialize_encode h'] at heq
  exact (Option.some.inj heq).symm

/-- An encoding that is cut short is rejected. -/
theorem deserialize_prefix (h : c.encode a = some bs) {bs' : List UInt8} (hpre : bs' <+: bs)
    (hne : bs' ≠ bs) : c.deserialize bs' = none := by
  obtain ⟨more, rfl⟩ := hpre
  cases hdec : c.decode bs' with
  | none => rw [deserialize, hdec, Option.map_none]
  | some r =>
    -- otherwise the bytes that were cut off are left behind in the whole encoding
    obtain ⟨b, rest⟩ := r
    have hlong := c.decode_append hdec more
    have hwhole := c.decode_encode h []
    rw [List.append_nil, hlong] at hwhole
    have hrest := (Prod.mk.inj (Option.some.inj hwhole)).2
    obtain ⟨-, rfl⟩ := List.append_eq_nil_iff.mp hrest
    exact absurd (List.append_nil bs').symm hne

/-! ## Building blocks -/

/-- Nothing is written. -/
def unit : Codec Unit where
  encode _ := some []
  decode bs := some ((), bs)
  decode_encode := by
    intro a bs h rest
    rw [← Option.some.inj h]
    rfl
  decode_append := by
    intro bs a rest h more
    obtain ⟨-, rfl⟩ := Prod.mk.inj (Option.some.inj h)
    rfl

/-- Take `n` bytes off the front. -/
def takeBytes (n : Nat) (bs : List UInt8) : Option (List UInt8 × List UInt8) :=
  if n ≤ bs.length then some (bs.take n, bs.drop n) else none

theorem takeBytes_append_left {n : Nat} {bs : List UInt8} (h : bs.length = n) (rest : List UInt8) :
    takeBytes n (bs ++ rest) = some (bs, rest) := by
  subst h
  rw [takeBytes, if_pos (by rw [List.length_append]; omega), List.take_left, List.drop_left]

theorem takeBytes_append {n : Nat} {bs x rest : List UInt8} (h : takeBytes n bs = some (x, rest))
    (more : List UInt8) : x.length = n ∧ takeBytes n (bs ++ more) = some (x, rest ++ more) := by
  simp only [takeBytes] at h
  split at h
  · rename_i hlen
    obtain ⟨rfl, rfl⟩ := Prod.mk.inj (Option.some.inj h)
    refine ⟨by rw [List.length_take]; omega, ?_⟩
    rw [takeBytes, if_pos (by rw [List.length_append]; omega), List.take_append_of_le_length hlen,
      List.drop_append_of_le_length hlen]
  · cases h

/-- A number of `n` bytes, most significant byte first. -/
def uint (n : Nat) : Codec Nat where
  encode v := if v < 256 ^ n then some (toBe n v) else none
  decode bs := (takeBytes n bs).map fun r => (ofBe r.1, r.2)
  decode_encode := by
    intro v bs h rest
    split at h
    · rename_i hv
      rw [← Option.some.inj h, takeBytes_append_left (length_toBe n v), Option.map_some,
        ofBe_toBe_of_lt hv]
    · cases h
  decode_append := by
    intro bs a rest h more
    obtain ⟨⟨x, rest'⟩, htake, heq⟩ := Option.map_eq_some_iff.mp h
    obtain ⟨rfl, rfl⟩ := Prod.mk.inj heq
    rw [(takeBytes_append htake more).2, Option.map_some]

/-- A string of `n` bytes. -/
def array (n : Nat) : Codec (List UInt8) where
  encode x := if x.length = n then some x else none
  decode := takeBytes n
  decode_encode := by
    intro x bs h rest
    split at h
    · rename_i hlen
      rw [← Option.some.inj h]
      exact takeBytes_append_left hlen rest
    · cases h
  decode_append := by
    intro bs x rest h more
    exact (takeBytes_append h more).2

/-! ## Composition -/

/-- One value after the other. -/
def pair (c : Codec α) (d : Codec β) : Codec (α × β) where
  encode p := (c.encode p.1).bind fun x => (d.encode p.2).map (x ++ ·)
  decode bs := (c.decode bs).bind fun r => (d.decode r.2).map fun r' => ((r.1, r'.1), r'.2)
  decode_encode := by
    intro p bs h rest
    obtain ⟨x, hx, h⟩ := Option.bind_eq_some_iff.mp h
    obtain ⟨y, hy, rfl⟩ := Option.map_eq_some_iff.mp h
    rw [List.append_assoc, c.decode_encode hx, Option.bind_some,
      d.decode_encode hy, Option.map_some]
  decode_append := by
    intro bs p rest h more
    obtain ⟨⟨a, rest₁⟩, ha, h⟩ := Option.bind_eq_some_iff.mp h
    obtain ⟨⟨b, rest₂⟩, hb, heq⟩ := Option.map_eq_some_iff.mp h
    obtain ⟨rfl, rfl⟩ := Prod.mk.inj heq
    rw [c.decode_append ha, Option.bind_some, d.decode_append hb, Option.map_some]

/-- The values of another type that are written as values of this one: `f` reads such a
    value off what was decoded, `g` says which ones there are. -/
def partialMap (c : Codec α) (f : α → Option β) (g : β → Option α)
    (h : ∀ a b, g b = some a → f a = some b) : Codec β where
  encode b := (g b).bind c.encode
  decode bs := (c.decode bs).bind fun r => (f r.1).map fun b => (b, r.2)
  decode_encode := by
    intro b bs hb rest
    obtain ⟨a, ha, henc⟩ := Option.bind_eq_some_iff.mp hb
    rw [c.decode_encode henc, Option.bind_some, h a b ha, Option.map_some]
  decode_append := by
    intro bs b rest hdec more
    obtain ⟨⟨a, rest'⟩, ha, hf⟩ := Option.bind_eq_some_iff.mp hdec
    obtain ⟨b', hb', heq⟩ := Option.map_eq_some_iff.mp hf
    obtain ⟨rfl, rfl⟩ := Prod.mk.inj heq
    rw [c.decode_append ha, Option.bind_some, hb', Option.map_some]

/-! ## Sequences -/

/-- The encodings of all values, one after the other. -/
def encodeAll (c : Codec α) : List α → Option (List UInt8)
  | [] => some []
  | a :: as => (c.encode a).bind fun x => (encodeAll c as).map (x ++ ·)

/-- Read `n` values. -/
def decodeAll (c : Codec α) : Nat → List UInt8 → Option (List α × List UInt8)
  | 0, bs => some ([], bs)
  | n + 1, bs =>
    (c.decode bs).bind fun r => (decodeAll c n r.2).map fun r' => (r.1 :: r'.1, r'.2)

theorem decodeAll_encodeAll {as : List α} (h : c.encodeAll as = some bs) (rest : List UInt8) :
    c.decodeAll as.length (bs ++ rest) = some (as, rest) := by
  induction as generalizing bs with
  | nil =>
    rw [← Option.some.inj h]
    rfl
  | cons a as ih =>
    obtain ⟨x, hx, h⟩ := Option.bind_eq_some_iff.mp h
    obtain ⟨y, hy, rfl⟩ := Option.map_eq_some_iff.mp h
    simp only [List.length_cons, decodeAll, List.append_assoc]
    rw [c.decode_encode hx, Option.bind_some, ih hy, Option.map_some]

theorem decodeAll_append {n : Nat} {as : List α} {rest : List UInt8}
    (h : c.decodeAll n bs = some (as, rest)) (more : List UInt8) :
    c.decodeAll n (bs ++ more) = some (as, rest ++ more) := by
  induction n generalizing bs as with
  | zero =>
    obtain ⟨rfl, rfl⟩ := Prod.mk.inj (Option.some.inj h)
    rfl
  | succ n ih =>
    obtain ⟨⟨a, rest₁⟩, ha, h⟩ := Option.bind_eq_some_iff.mp h
    obtain ⟨⟨as', rest₂⟩, has, heq⟩ := Option.map_eq_some_iff.mp h
    obtain ⟨rfl, rfl⟩ := Prod.mk.inj heq
    simp only [decodeAll]
    rw [c.decode_append ha, Option.bind_some, ih has, Option.map_some]

/-- A sequence behind its length, of a length that `fits`. -/
def seq (len : Codec Nat) (fits : Nat → Bool) (c : Codec α) : Codec (List α) where
  encode as :=
    if fits as.length then (len.encode as.length).bind fun x => (c.encodeAll as).map (x ++ ·)
    else none
  decode bs :=
    (len.decode bs).bind fun r => if fits r.1 then c.decodeAll r.1 r.2 else none
  decode_encode := by
    intro as bs h rest
    split at h
    · rename_i hfits
      obtain ⟨x, hx, h⟩ := Option.bind_eq_some_iff.mp h
      obtain ⟨y, hy, rfl⟩ := Option.map_eq_some_iff.mp h
      -- the length is read back first, then as many elements
      rw [List.append_assoc, len.decode_encode hx, Option.bind_some, if_pos hfits,
        decodeAll_encodeAll hy]
    · cases h
  decode_append := by
    intro bs as rest h more
    obtain ⟨⟨n, rest₁⟩, hn, h⟩ := Option.bind_eq_some_iff.mp h
    rw [len.decode_append hn, Option.bind_some]
    dsimp only at h ⊢
    split at h
    · rename_i hfits
      rw [if_pos hfits, decodeAll_append h]
    · cases h

/-! ## Alternatives -/

/-- Write `a` by the first of the variants that has it, behind the number of the variant; the
    variants are numbered from `i` on. -/
def encodeVariant (tag : Codec Nat) (a : α) : List (Codec α) → Nat → Option (List UInt8)
  | [], _ => none
  | v :: vs, i =>
    match v.encode a with
    | some bs => (tag.encode i).map (· ++ bs)
    | none => encodeVariant tag a vs (i + 1)

theorem encodeVariant_some {tag : Codec Nat} {vs : List (Codec α)} {i : Nat}
    (h : encodeVariant tag a vs i = some bs) :
    ∃ j v x y, vs[j]? = some v ∧ tag.encode (i + j) = some x ∧ v.encode a = some y ∧
      bs = x ++ y := by
  induction vs generalizing i with
  | nil => cases h
  | cons v vs ih =>
    simp only [encodeVariant] at h
    split at h
    · rename_i y hy
      obtain ⟨x, hx, rfl⟩ := Option.map_eq_some_iff.mp h
      exact ⟨0, v, x, y, rfl, hx, hy, rfl⟩
    · obtain ⟨j, v', x, y, hj, hx, hy, rfl⟩ := ih h
      refine ⟨j + 1, v', x, y, hj, ?_, hy, rfl⟩
      rwa [show i + (j + 1) = i + 1 + j by omega]

/-- A value of one of several variants, behind the number of the variant. -/
def enum (tag : Codec Nat) (variants : List (Codec α)) : Codec α where
  encode a := encodeVariant tag a variants 0
  decode bs := (tag.decode bs).bind fun r => variants[r.1]?.bind fun v => v.decode r.2
  decode_encode := by
    intro a bs h rest
    obtain ⟨j, v, x, y, hj, hx, hy, rfl⟩ := encodeVariant_some h
    rw [Nat.zero_add] at hx
    rw [List.append_assoc, tag.decode_encode hx, Option.bind_some]
    dsimp only
    rw [hj, Option.bind_some, v.decode_encode hy]
  decode_append := by
    intro bs a rest h more
    obtain ⟨⟨j, rest₁⟩, hj, h⟩ := Option.bind_eq_some_iff.mp h
    obtain ⟨v, hv, h⟩ := Option.bind_eq_some_iff.mp h
    rw [tag.decode_append hj, Option.bind_some]
    dsimp only at hv ⊢
    rw [hv, Option.bind_some, v.decode_append h]

/-! ## Sizes -/

/-- The value is written, in `n` bytes. -/
def Writes (c : Codec α) (a : α) (n : Nat) : Prop := ∃ bs, c.encode a = some bs ∧ bs.length = n

theorem writes_unit : unit.Writes () 0 := ⟨[], rfl, rfl⟩

theorem writes_uint {n v : Nat} (h : v < 256 ^ n) : (uint n).Writes v n :=
  ⟨toBe n v, if_pos h, length_toBe n v⟩

theorem writes_array {n : Nat} {x : List UInt8} (h : x.length = n) : (array n).Writes x n :=
  ⟨x, if_pos h, h⟩

theorem Writes.pair {b : β} {n k : Nat} (ha : c.Writes a n) (hb : d.Writes b k) :
    (c.pair d).Writes (a, b) (n + k) := by
  obtain ⟨x, hx, rfl⟩ := ha
  obtain ⟨y, hy, rfl⟩ := hb
  refine ⟨x ++ y, ?_, List.length_append⟩
  simp only [Codec.pair, hx, hy, Option.bind_some, Option.map_some]

theorem Writes.partialMap {f : α → Option β} {g : β → Option α}
    {h : ∀ a b, g b = some a → f a = some b} {b : β} {n : Nat} (hb : g b = some a)
    (ha : c.Writes a n) : (c.partialMap f g h).Writes b n := by
  obtain ⟨x, hx, rfl⟩ := ha
  refine ⟨x, ?_, rfl⟩
  simp only [Codec.partialMap, hb, Option.bind_some, hx]

theorem writes_encodeAll {as : List α} {n : Nat} (h : ∀ a ∈ as, c.Writes a n) :
    ∃ bs, c.encodeAll as = some bs ∧ bs.length = as.length * n := by
  induction as with
  | nil => exact ⟨[], rfl, by simp⟩
  | cons a as ih =>
    obtain ⟨x, hx, hlen⟩ := h a List.mem_cons_self
    obtain ⟨y, hy, hlen'⟩ := ih fun b hb => h b (List.mem_cons_of_mem _ hb)
    refine ⟨x ++ y, ?_, ?_⟩
    · simp only [encodeAll, hx, hy, Option.bind_some, Option.map_some]
    · rw [List.length_append, hlen, hlen', List.length_cons, Nat.add_mul, Nat.one_mul, Nat.add_comm]

theorem writes_seq {len : Codec Nat} {fits : Nat → Bool} {as : List α} {k n : Nat}
    (hfits : fits as.length = true) (hlen : len.Writes as.length k) (h : ∀ a ∈ as, c.Writes a n) :
    (seq len fits c).Writes as (k + as.length * n) := by
  obtain ⟨x, hx, rfl⟩ := hlen
  obtain ⟨y, hy, hylen⟩ := writes_encodeAll h
  refine ⟨x ++ y, ?_, by rw [List.length_append, hylen]⟩
  simp only [seq, hfits, if_true, hx, hy, Option.bind_some, Option.map_some]

/-- A value is written by the first variant that has it. -/
theorem writes_enum {tag : Codec Nat} {vs : List (Codec α)} {v : Codec α} (i : Nat) {k n : Nat}
    (hvs : ((vs.take i).all fun v' => (v'.encode a).isNone) = true) (hi : vs[i]? = some v)
    (htag : tag.Writes i k) (hv : v.Writes a n) : (enum tag vs).Writes a (k + n) := by
  -- the variants are tried from the first on: `j` counts those that did not fit
  suffices h : ∀ j, tag.Writes (j + i) k →
      ∃ bs, encodeVariant tag a vs j = some bs ∧ bs.length = k + n by
    exact h 0 (by rwa [Nat.zero_add])
  clear htag
  induction vs generalizing i with
  | nil => cases hi
  | cons v' vs ih =>
    intro j htag
    cases i with
    | zero =>
      obtain rfl := Option.some.inj hi
      obtain ⟨x, hx, rfl⟩ := htag
      obtain ⟨y, hy, rfl⟩ := hv
      refine ⟨x ++ y, ?_, List.length_append⟩
      rw [Nat.add_zero] at hx
      simp only [encodeVariant, hy, hx, Option.map_some]
    | succ i =>
      simp only [List.take_succ_cons, List.all_cons, Bool.and_eq_true, Option.isNone_iff_eq_none]
        at hvs
      rw [show j + (i + 1) = j + 1 + i by omega] at htag
      obtain ⟨bs, hbs, hlen⟩ := ih i hvs.2 hi (j + 1) htag
      refine ⟨bs, ?_, hlen⟩
      simp only [encodeVariant, hvs.1]
      exact hbs

end Codec

end ForStd
