import Kollect.Foundation.Text

/-
  Addresses of the Internet Protocol (`net/netip`).

  An address is of version 4 or 6, or the zero value. The predicates read the leading bits, of a
  mapped address those of the address it stands for. `isUnspecified` and `Network.contains` look at
  the zone, and do not unmap.
-/

namespace Netip

inductive Addr where
  | zero
  | v4 (bits : BitVec 32)
  | v6 (bits : BitVec 128) (zone : Text)
deriving DecidableEq, Repr

namespace Addr

def leading (n : Nat) {w : Nat} (bits : BitVec w) : Nat := bits.toNat >>> (w - n)

/- The address that an IPv4-mapped one stands for. -/
def unmap : Addr → Addr
  | .v6 bits zone => if leading 96 bits = 0xffff then .v4 (bits.truncate 32) else .v6 bits zone
  | a => a

def withZone (zone : Text) : Addr → Addr
  | .v6 bits _ => .v6 bits zone
  | a => a

def isValid (a : Addr) : Bool := a ≠ .zero

def is4 : Addr → Bool
  | .v4 _ => true
  | _ => false

/- The zone counts: `::` with a zone is not unspecified. -/
def isUnspecified (a : Addr) : Bool := a = .v4 0#32 || a = .v6 0#128 []

/- A test of the bits of either version. -/
def ofBits (four : BitVec 32 → Bool) (six : BitVec 128 → Bool) (a : Addr) : Bool :=
  match a.unmap with
  | .zero => false
  | .v4 bits => four bits
  | .v6 bits _ => six bits

def isLoopback : Addr → Bool := ofBits (fun bits => leading 8 bits = 127) fun bits => bits = 1#128

def isLinkLocalUnicast : Addr → Bool :=
  ofBits (fun bits => leading 16 bits = 0xa9fe) fun bits => leading 10 bits = 0x3fa

def isLinkLocalMulticast : Addr → Bool :=
  ofBits (fun bits => leading 24 bits = 0xe00000) fun bits => leading 16 bits &&& 0xff0f = 0xff02

def isMulticast : Addr → Bool :=
  ofBits (fun bits => leading 4 bits = 0xe) fun bits => leading 8 bits = 0xff

def isPrivate : Addr → Bool :=
  ofBits (fun bits => leading 8 bits = 10 || leading 12 bits = 0xac1 || leading 16 bits = 0xc0a8)
    fun bits => leading 7 bits = 0x7e

@[simp]
theorem unmap_withZone (zone : Text) (a : Addr) :
    (a.withZone zone).unmap = a.unmap.withZone zone := by
  cases a with
  | v6 bits old =>
    rw [withZone, unmap, unmap]
    split_ifs <;> rfl
  | _ => rfl

@[simp]
theorem unmap_unmap (a : Addr) : a.unmap.unmap = a.unmap := by
  cases a with
  | v6 bits zone =>
    by_cases hMapped : leading 96 bits = 0xffff
    · simp [unmap, hMapped]
    · simp [unmap, hMapped]
  | _ => rfl

/- A test of the bits is the same in every zone. -/
@[simp]
theorem ofBits_withZone (four : BitVec 32 → Bool) (six : BitVec 128 → Bool) (zone : Text)
    (a : Addr) : ofBits four six (a.withZone zone) = ofBits four six a := by
  rw [ofBits, ofBits, unmap_withZone]
  cases a.unmap <;> rfl

end Addr

/- A range of addresses, with the length of its mask. -/
inductive Network where
  | v4 (bits : BitVec 32) (length : Nat)
  | v6 (bits : BitVec 128) (length : Nat)

/- A zoned address is in no network, nor is one of another version. -/
def Network.contains : Network → Addr → Bool
  | .v4 net n, .v4 bits => Addr.leading n bits = Addr.leading n net
  | .v6 net n, .v6 bits [] => Addr.leading n bits = Addr.leading n net
  | _, _ => false

end Netip
