import Mathlib
import StoryMachine.Digest.Sha256
import StoryMachine.Metaclass.Data

/-!
# Reading byte strings

What a reader or a parser that is put together from others has read, and what it
reads off the bytes that were written for it.

* `Reader.bind_eq_some`, `Parser.bind_eq_ok`: one after the other;
* `Reader.forall_mem_replicate`: what is true of every item is true of all items;
* `Reader.Takes`, `Parser.Takes`: how much is read;
* `Reader.Reads`, `Parser.Reads`: what was written is read back;
* `Reader.Fixed`: readers of a fixed number of bytes;
* `Reader.bytes_eq_some_iff`, `Reader.u16_eq_some_iff`, `Reader.u32_eq_some_iff`: bytes that have
  been read are those that are written for what was read.
-/

namespace StoryMachine

variable {α β : Type} {bs rest : Bytes}

namespace Reader

theorem bind_eq_some {x : Reader α} {f : α → Reader β} {b : β} :
    (x >>= f) bs = some (b, rest) ↔ ∃ a mid, x bs = some (a, mid) ∧ f a mid = some (b, rest) := by
  change (x bs).bind (fun p => f p.1 p.2) = _ ↔ _
  rw [Option.bind_eq_some_iff]
  exact Prod.exists

theorem pure_eq_some {a b : α} : (pure a : Reader α) bs = some (b, rest) ↔ a = b ∧ bs = rest := by
  change some (a, bs) = some (b, rest) ↔ _
  rw [Option.some.injEq, Prod.mk.injEq]

theorem lift_eq_some {o : Option α} {a : α} :
    (liftM o : Reader α) bs = some (a, rest) ↔ o = some a ∧ bs = rest := by
  change (o.bind fun a => some (a, bs)) = some (a, rest) ↔ _
  cases o <;> simp

theorem forall_mem_replicateAfter {P : α → Prop} {item : Reader α}
    (hitem : ∀ bs a rest, item bs = some (a, rest) → P a) {n : Nat} {read as : List α}
    (hread : ∀ a ∈ read, P a) (hr : replicateAfter item n read bs = some (as, rest)) :
    ∀ a ∈ as, P a := by
  induction n generalizing read bs with
  | zero =>
    obtain ⟨rfl, -⟩ := pure_eq_some.1 hr
    simpa using hread
  | succ n ih =>
    obtain ⟨a, mid, ha, hmid⟩ := bind_eq_some.1 hr
    exact ih (List.forall_mem_cons.2 ⟨hitem _ _ _ ha, hread⟩) hmid

theorem forall_mem_replicate {P : α → Prop} {item : Reader α}
    (hitem : ∀ bs a rest, item bs = some (a, rest) → P a) {n : Nat} {as : List α}
    (hr : replicate n item bs = some (as, rest)) : ∀ a ∈ as, P a :=
  forall_mem_replicateAfter hitem (by simp) hr

end Reader

namespace Parser

theorem bind_eq_ok {x : Parser α} {f : α → Parser β} {b : β} :
    (x >>= f) bs = .ok (b, rest) ↔ ∃ a mid, x bs = .ok (a, mid) ∧ f a mid = .ok (b, rest) := by
  change (x bs >>= fun p => f p.1 p.2) = _ ↔ _
  cases hx : x bs with
  | error e => simp [bind, Except.bind]
  | ok p =>
    obtain ⟨a, mid⟩ := p
    simp [bind, Except.bind, and_assoc]

theorem pure_eq_ok {a b : α} : (pure a : Parser α) bs = .ok (b, rest) ↔ a = b ∧ bs = rest := by
  change Except.ok (a, bs) = .ok (b, rest) ↔ _
  rw [Except.ok.injEq, Prod.mk.injEq]

theorem of_eq_ok {f : Failure} {r : Reader α} {a : α} :
    Parser.of f r bs = .ok (a, rest) ↔ r bs = some (a, rest) := by
  unfold Parser.of
  cases r bs <;> simp

theorem lift_eq_ok {x : Except Failure α} {a : α} :
    (liftM x : Parser α) bs = .ok (a, rest) ↔ x = .ok a ∧ bs = rest := by
  change (x >>= fun a => Except.ok (a, bs)) = .ok (a, rest) ↔ _
  cases x <;> simp [bind, Except.bind]

/-- A check that nothing goes on after. -/
theorem guard_eq_ok {c : Prop} [Decidable c] {f : Failure} {k : Unit → Parser β} {b : β} :
    (if c then throw f >>= k else k ()) bs = .ok (b, rest) ↔ ¬c ∧ k () bs = .ok (b, rest) := by
  split
  · next hc =>
    refine ⟨fun hthrow => ?_, fun hn => absurd hc hn.1⟩
    obtain ⟨_, _, hthrow, -⟩ := bind_eq_ok.1 hthrow
    cases hthrow
  · next hc => exact ⟨fun hk => ⟨hc, hk⟩, And.right⟩

end Parser

/-! ## How much is read -/

namespace Reader

/-- The reader takes `n` bytes if it reads anything. -/
def Takes (r : Reader α) (n : Nat) : Prop := ∀ bs a rest, r bs = some (a, rest) →
  n ≤ bs.length ∧ rest = bs.drop n

theorem Takes.pure (a : α) : Takes (Pure.pure a) 0 := fun _ _ _ hr =>
  ⟨Nat.zero_le _, (pure_eq_some.1 hr).2.symm⟩

theorem Takes.bind {x : Reader α} {f : α → Reader β} {n n' : Nat} (hx : x.Takes n)
    (hf : ∀ a, (f a).Takes n') : (x >>= f).Takes (n + n') := by
  intro bs b rest hr
  obtain ⟨a, mid, ha, hr⟩ := bind_eq_some.1 hr
  obtain ⟨hle, rfl⟩ := hx _ _ _ ha
  obtain ⟨hle', rfl⟩ := hf a _ _ _ hr
  rw [List.length_drop] at hle'
  exact ⟨by omega, by rw [List.drop_drop]⟩

theorem Takes.lift (o : Option α) : (liftM o : Reader α).Takes 0 := fun _ _ _ hr =>
  ⟨Nat.zero_le _, (lift_eq_some.1 hr).2.symm⟩

theorem takes_bytes (n : Nat) : (bytes n).Takes n := by
  intro bs front rest hr
  unfold bytes at hr
  dsimp only at hr
  split_ifs at hr with hlength
  rw [List.length_take, min_eq_left_iff] at hlength
  exact ⟨hlength, (Prod.mk.inj (Option.some.inj hr)).2.symm⟩

theorem takes_nat (w : Nat) : (nat w).Takes w := (takes_bytes w).bind fun _ => .pure _

theorem takes_u8 : u8.Takes 1 := (takes_nat 1).bind fun _ => .pure _

theorem takes_u16 : u16.Takes 2 := (takes_nat 2).bind fun _ => .pure _

theorem takes_u32 : u32.Takes 4 := (takes_nat 4).bind fun _ => .pure _

theorem takes_text (n : Nat) : (text n).Takes n := (takes_bytes n).bind fun _ => .lift _

theorem takes_replicateAfter {item : Reader α} {k : Nat} (hitem : item.Takes k) (n : Nat)
    (read : List α) : (replicateAfter item n read).Takes (k * n) := by
  induction n generalizing read with
  | zero => exact .pure _
  | succ n ih =>
    rw [Nat.mul_succ, Nat.add_comm (k * n)]
    exact hitem.bind fun _ => ih _

theorem takes_replicate {item : Reader α} {k : Nat} (hitem : item.Takes k) (n : Nat) :
    (replicate n item).Takes (k * n) := takes_replicateAfter hitem n []

end Reader

namespace Parser

/-- The parser takes `n` bytes if it reads anything. -/
def Takes (p : Parser α) (n : Nat) : Prop := ∀ bs a rest, p bs = .ok (a, rest) →
  n ≤ bs.length ∧ rest = bs.drop n

theorem Takes.pure (a : α) : Takes (Pure.pure a) 0 := fun _ _ _ hr =>
  ⟨Nat.zero_le _, (pure_eq_ok.1 hr).2.symm⟩

theorem Takes.of {r : Reader α} {n : Nat} (hr : r.Takes n) (f : Failure) :
    Takes (Parser.of f r) n := fun _ _ _ hok => hr _ _ _ (of_eq_ok.1 hok)

theorem Takes.bind {x : Parser α} {f : α → Parser β} {n n' : Nat} (hx : x.Takes n)
    (hf : ∀ a, (f a).Takes n') : (x >>= f).Takes (n + n') := by
  intro bs b rest hr
  obtain ⟨a, mid, ha, hr⟩ := bind_eq_ok.1 hr
  obtain ⟨hle, rfl⟩ := hx _ _ _ ha
  obtain ⟨hle', rfl⟩ := hf a _ _ _ hr
  rw [List.length_drop] at hle'
  exact ⟨by omega, by rw [List.drop_drop]⟩

/-- A check takes nothing. -/
theorem Takes.guard {c : Prop} [Decidable c] {f : Failure} {k : Unit → Parser β} {n : Nat}
    (hk : (k ()).Takes n) : Takes (if c then throw f >>= k else k ()) n := fun _ _ _ hr =>
  hk _ _ _ (guard_eq_ok.1 hr).2

end Parser

/-! ## Reading what was written -/

namespace Bytes

theorem length_ofNat (w n : Nat) : (ofNat w n).length = w := by
  induction w generalizing n with
  | zero => rfl
  | succ w ih => rw [ofNat, List.length_cons, ih]

theorem toNat_ofNat {w n : Nat} (hn : n < 256 ^ w) : toNat (ofNat w n) = n := by
  induction w generalizing n with
  | zero => exact (Nat.lt_one_iff.1 hn).symm
  | succ w ih =>
    have hdiv : n / 256 < 256 ^ w := Nat.div_lt_of_lt_mul (by rwa [← Nat.pow_succ'])
    rw [ofNat, toNat, ih hdiv, UInt8.toNat_ofNat']
    exact Nat.mod_add_div n 256

theorem toNat_lt (bs : Bytes) : toNat bs < 256 ^ bs.length := by
  induction bs with
  | nil => exact Nat.one_pos
  | cons b bs ih =>
    have hb : b.toNat < 256 := b.toNat_lt
    rw [toNat, List.length_cons, Nat.pow_succ]
    omega

theorem ofNat_toNat (bs : Bytes) : ofNat bs.length (toNat bs) = bs := by
  induction bs with
  | nil => rfl
  | cons b bs ih =>
    have hb : b.toNat < 256 := b.toNat_lt
    have hlow : UInt8.ofNat (b.toNat + 256 * toNat bs) = b := by
      apply UInt8.toNat_inj.1
      rw [UInt8.toNat_ofNat']
      omega
    have hhigh : (b.toNat + 256 * toNat bs) / 256 = toNat bs := by omega
    rw [toNat, List.length_cons, ofNat, hlow, hhigh, ih]

theorem toText?_ofText (s : String) : toText? (ofText s) = some s := by
  have hbytes : (⟨(ofText s).toArray⟩ : ByteArray) = s.toByteArray := by
    simp [ofText]
  rw [toText?, hbytes, String.fromUTF8?, dif_pos s.isValidUTF8]
  rfl

/-- Only the bytes of a text are those of a text. -/
theorem toText?_eq_some_iff {s : String} : toText? bs = some s ↔ ofText s = bs := by
  constructor
  · intro hs
    rw [toText?, String.fromUTF8?] at hs
    split at hs
    · obtain rfl := Option.some.inj hs
      rfl
    · cases hs
  · rintro rfl
    exact toText?_ofText s

end Bytes

theorem Sha256.length_digest (bs : Bytes) : (digest bs).length = 32 := by
  simp [digest, Bytes.u32, Bytes.length_ofNat]

namespace Reader

/-- The reader takes the bytes, and gives what they stand for. -/
def Reads (r : Reader α) (bs : Bytes) (a : α) : Prop := ∀ rest, r (bs ++ rest) = some (a, rest)

theorem Reads.pure (a : α) : Reads (Pure.pure a) [] a := fun _ => rfl

theorem Reads.bind {x : Reader α} {f : α → Reader β} {bs bs' : Bytes} {a : α} {b : β}
    (hx : Reads x bs a) (hf : Reads (f a) bs' b) : Reads (x >>= f) (bs ++ bs') b := fun rest =>
  bind_eq_some.2 ⟨a, bs' ++ rest, by rw [List.append_assoc, hx], hf rest⟩

theorem Reads.map {x : Reader α} {bs : Bytes} {a : α} (hx : Reads x bs a) (f : α → β) :
    Reads (x >>= fun a => Pure.pure (f a)) bs (f a) := by
  have hread := hx.bind (f := fun a => Pure.pure (f a)) (.pure (f a))
  rwa [List.append_nil] at hread

theorem reads_bytes (bs : Bytes) : Reads (bytes bs.length) bs bs := fun rest => by
  simp [bytes]

theorem reads_nat {w n : Nat} (hn : n < 256 ^ w) : Reads (nat w) (Bytes.ofNat w n) n := by
  have hread := (reads_bytes (Bytes.ofNat w n)).map Bytes.toNat
  rwa [Bytes.length_ofNat, Bytes.toNat_ofNat hn] at hread

theorem reads_u8 (b : UInt8) : Reads u8 [b] b := by
  have hread := (reads_nat (w := 1) b.toNat_lt).map UInt8.ofNat
  have hbytes : Bytes.ofNat 1 b.toNat = [b] := by rw [Bytes.ofNat, Bytes.ofNat, UInt8.ofNat_toNat]
  rwa [UInt8.ofNat_toNat, hbytes] at hread

theorem reads_u16 (n : UInt16) : Reads u16 (Bytes.u16 n) n := by
  have hread := (reads_nat (w := 2) n.toNat_lt).map UInt16.ofNat
  rwa [UInt16.ofNat_toNat] at hread

theorem reads_u32 (n : UInt32) : Reads u32 (Bytes.u32 n) n := by
  have hread := (reads_nat (w := 4) n.toNat_lt).map UInt32.ofNat
  rwa [UInt32.ofNat_toNat] at hread

theorem reads_u64 (n : UInt64) : Reads u64 (Bytes.u64 n) n := by
  have hread := (reads_nat (w := 8) n.toNat_lt).map UInt64.ofNat
  rwa [UInt64.ofNat_toNat] at hread

/-- The reader takes `n` bytes, whatever they are, and reads nothing if there are fewer. -/
structure Fixed (r : Reader α) (n : Nat) : Prop where
  /-- What it reads is in the `n` bytes. -/
  reads : ∀ bs, bs.length = n → ∃ a, r.Reads bs a
  /-- With fewer bytes it fails. -/
  few : ∀ bs, bs.length < n → r bs = none

theorem Fixed.pure (a : α) : Fixed (Pure.pure a) 0 := by
  refine ⟨fun bs hbs => ⟨a, ?_⟩, fun bs hbs => absurd hbs (Nat.not_lt_zero _)⟩
  rw [List.eq_nil_of_length_eq_zero hbs]
  exact .pure a

theorem Fixed.bind {x : Reader α} {f : α → Reader β} {n n' : Nat} (hx : x.Fixed n)
    (hf : ∀ a, (f a).Fixed n') : (x >>= f).Fixed (n + n') := by
  refine ⟨fun bs hbs => ?_, fun bs hbs => Option.eq_none_iff_forall_ne_some.2 ?_⟩
  · obtain ⟨a, ha⟩ := hx.reads (bs.take n) (List.length_take_of_le (by omega))
    obtain ⟨b, hb⟩ := (hf a).reads (bs.drop n) (by rw [List.length_drop]; omega)
    refine ⟨b, ?_⟩
    rw [← List.take_append_drop n bs]
    exact ha.bind hb
  · rintro ⟨b, rest⟩ hread
    obtain ⟨a, mid, ha, hb⟩ := bind_eq_some.1 hread
    by_cases hshort : bs.length < n
    · rw [hx.few bs hshort] at ha
      cases ha
    · obtain ⟨a', ha'⟩ := hx.reads (bs.take n) (List.length_take_of_le (by omega))
      have hmid := ha' (bs.drop n)
      rw [List.take_append_drop, ha] at hmid
      obtain rfl := (Prod.mk.inj (Option.some.inj hmid)).2
      rw [(hf a).few _ (by rw [List.length_drop]; omega)] at hb
      cases hb

/-- Where there are enough bytes, something is read, and the others are left. -/
theorem Fixed.exists_of_le {r : Reader α} {n : Nat} (hr : r.Fixed n) (hbs : n ≤ bs.length) :
    ∃ a, r.Reads (bs.take n) a ∧ r bs = some (a, bs.drop n) := by
  obtain ⟨a, ha⟩ := hr.reads (bs.take n) (List.length_take_of_le hbs)
  have hread := ha (bs.drop n)
  rw [List.take_append_drop] at hread
  exact ⟨a, ha, hread⟩

theorem fixed_nat (w : Nat) : (nat w).Fixed w := by
  refine ⟨fun bs hbs => ⟨Bytes.toNat bs, hbs ▸ (reads_bytes bs).map Bytes.toNat⟩, fun bs hbs => ?_⟩
  have hnone : bytes w bs = none := by simp [bytes, hbs]
  change (bytes w bs).bind _ = none
  rw [hnone]
  rfl

theorem fixed_u8 : u8.Fixed 1 := (fixed_nat 1).bind fun _ => .pure _

theorem fixed_u16 : u16.Fixed 2 := (fixed_nat 2).bind fun _ => .pure _

theorem fixed_u32 : u32.Fixed 4 := (fixed_nat 4).bind fun _ => .pure _

theorem bytes_eq_some_iff {n : Nat} {front : Bytes} :
    bytes n bs = some (front, rest) ↔ front.length = n ∧ bs = front ++ rest := by
  constructor
  · intro hr
    rw [bytes] at hr
    split_ifs at hr with hlength
    obtain ⟨rfl, rfl⟩ := Prod.mk.inj (Option.some.inj hr)
    exact ⟨hlength, (List.take_append_drop n bs).symm⟩
  · rintro ⟨rfl, rfl⟩
    exact reads_bytes front rest

/-- A number has one spelling of `w` bytes, from which it is read. -/
theorem nat_eq_some_iff {w n : Nat} :
    nat w bs = some (n, rest) ↔ n < 256 ^ w ∧ bs = Bytes.ofNat w n ++ rest := by
  constructor
  · intro hr
    obtain ⟨front, mid, hfront, hback⟩ := bind_eq_some.1 hr
    obtain ⟨rfl, hbs⟩ := bytes_eq_some_iff.1 hfront
    obtain ⟨rfl, rfl⟩ := pure_eq_some.1 hback
    exact ⟨Bytes.toNat_lt front, by rw [Bytes.ofNat_toNat, hbs]⟩
  · rintro ⟨hn, rfl⟩
    exact reads_nat hn rest

theorem u16_eq_some_iff {n : UInt16} : u16 bs = some (n, rest) ↔ bs = Bytes.u16 n ++ rest := by
  constructor
  · intro hr
    obtain ⟨m, mid, hm, hback⟩ := bind_eq_some.1 hr
    obtain ⟨hlt, hbs⟩ := nat_eq_some_iff.1 hm
    obtain ⟨rfl, rfl⟩ := pure_eq_some.1 hback
    rw [hbs, Bytes.u16, UInt16.toNat_ofNat_of_lt' hlt]
  · rintro rfl
    exact reads_u16 n rest

theorem u32_eq_some_iff {n : UInt32} : u32 bs = some (n, rest) ↔ bs = Bytes.u32 n ++ rest := by
  constructor
  · intro hr
    obtain ⟨m, mid, hm, hback⟩ := bind_eq_some.1 hr
    obtain ⟨hlt, hbs⟩ := nat_eq_some_iff.1 hm
    obtain ⟨rfl, rfl⟩ := pure_eq_some.1 hback
    rw [hbs, Bytes.u32, UInt32.toNat_ofNat_of_lt' hlt]
  · rintro rfl
    exact reads_u32 n rest

theorem reads_text (s : String) : Reads (text (Bytes.ofText s).length) (Bytes.ofText s) s := by
  have htext : Reads (liftM (Bytes.toText? (Bytes.ofText s))) [] s := fun rest =>
    lift_eq_some.2 ⟨Bytes.toText?_ofText s, rfl⟩
  have hread := (reads_bytes (Bytes.ofText s)).bind (f := fun bs => liftM (Bytes.toText? bs)) htext
  rwa [List.append_nil] at hread

/-- A name that is short enough for its length to be written in one byte. -/
theorem reads_name {s : String} (hs : (Bytes.ofText s).length < 256) :
    Reads name (UInt8.ofNat (Bytes.ofText s).length :: Bytes.ofText s) s := by
  refine (reads_u8 (UInt8.ofNat (Bytes.ofText s).length)).bind ?_
  rw [UInt8.toNat_ofNat_of_lt' hs]
  exact reads_text s

/-- A name of which nothing is cut off. -/
theorem reads_shortName {s : String} (hs : (Bytes.ofText s).length ≤ 255) :
    Reads name (Bytes.name s) s := by
  have hread := reads_name (Nat.lt_succ_of_le hs)
  rwa [Bytes.name, List.take_of_length_le hs]

theorem reads_replicateAfter {item : Reader α} {f : α → Bytes} {as : List α}
    (hitem : ∀ a ∈ as, Reads item (f a) a) (read : List α) :
    Reads (replicateAfter item as.length read) (as.flatMap f) (read.reverse ++ as) := by
  induction as generalizing read with
  | nil =>
    rw [List.append_nil]
    exact .pure _
  | cons a as ih =>
    obtain ⟨ha, has⟩ := List.forall_mem_cons.1 hitem
    have hrest := ih has (a :: read)
    rw [List.reverse_cons, List.append_assoc, List.singleton_append] at hrest
    exact ha.bind hrest

theorem reads_replicate {item : Reader α} {f : α → Bytes} {as : List α}
    (hitem : ∀ a ∈ as, Reads item (f a) a) : Reads (replicate as.length item) (as.flatMap f) as :=
  reads_replicateAfter hitem []

end Reader

namespace Parser

/-- The parser takes the bytes, and gives what they stand for. -/
def Reads (p : Parser α) (bs : Bytes) (a : α) : Prop := ∀ rest, p (bs ++ rest) = .ok (a, rest)

theorem Reads.pure (a : α) : Reads (Pure.pure a) [] a := fun _ => rfl

theorem Reads.bind {x : Parser α} {f : α → Parser β} {bs bs' : Bytes} {a : α} {b : β}
    (hx : Reads x bs a) (hf : Reads (f a) bs' b) : Reads (x >>= f) (bs ++ bs') b := fun rest =>
  bind_eq_ok.2 ⟨a, bs' ++ rest, by rw [List.append_assoc, hx], hf rest⟩

/-- What is read last. -/
theorem Reads.last {x : Parser α} {f : α → Parser β} {bs : Bytes} {a : α} {b : β}
    (hx : Reads x bs a) (hf : Reads (f a) [] b) : Reads (x >>= f) bs b := by
  have hread := hx.bind hf
  rwa [List.append_nil] at hread

/-- A part for which nothing is read. -/
theorem Reads.lift {x : Except Failure α} {f : α → Parser β} {bs : Bytes} {a : α} {b : β}
    (hx : x = .ok a) (hf : Reads (f a) bs b) : Reads (liftM x >>= f) bs b := fun rest =>
  bind_eq_ok.2 ⟨a, bs ++ rest, lift_eq_ok.2 ⟨hx, rfl⟩, hf rest⟩

/-- A check that is passed. -/
theorem Reads.guard {c : Prop} [Decidable c] {f : Failure} {k : Unit → Parser β} {bs : Bytes}
    {b : β} (hc : ¬c) (hk : Reads (k ()) bs b) :
    Reads (if c then throw f >>= k else k ()) bs b := fun rest => guard_eq_ok.2 ⟨hc, hk rest⟩

theorem Reads.of {r : Reader α} {bs : Bytes} {a : α} (hr : r.Reads bs a) (f : Failure) :
    Reads (Parser.of f r) bs a := fun rest => of_eq_ok.2 (hr rest)

/-- Nothing is left where nothing more was written. -/
theorem Reads.whole {p : Parser α} {bs : Bytes} {a : α} (hp : Reads p bs a) :
    p bs = .ok (a, []) := by
  have hread := hp []
  rwa [List.append_nil] at hread

end Parser

end StoryMachine
