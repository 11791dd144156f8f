import Kollect.Sink.Dialer

/-
  Admission of the hosts of sink endpoints (`validation/endpoint_guard.go`), beside the guard of the
  dialer that meets the same hosts again.

  Key theorems include:
    * `samePolicy_iff`
-/

namespace Kollect
namespace Validation

open Netip Sink

def denyCIDRs : List Network :=
  [.v4 0x7f000000 8, .v4 0xa9fe0000 16, .v4 0x64400000 10, .v4 0xc6120000 15, .v6 1 128,
    .v6 0xfe800000000000000000000000000000 10, .v6 0xfd000ec2000000000000000000000254 128]

def denyHostnames : List Text :=
  ["localhost", "localhost.localdomain", "metadata", "metadata.google.internal", "instance-data",
    "instance-data.ec2.internal"]

def isDeniedIP (addr : Addr) (allowPrivateSinks : Bool) : Bool :=
  if addr.isLoopback || addr.isLinkLocalUnicast || addr.isLinkLocalMulticast ||
      addr.isUnspecified then true
  else if addr.isPrivate && !allowPrivateSinks then true
  else denyCIDRs.any fun net => net.contains (addr.withZone [])

/- `endpoint host %q is not allowed`, at a path. -/
structure ForbiddenHost where
  path : Text
  host : Text

/- The libraries and the opt-in are those of the dialer. -/
def validateHost (d : Dialer) (host path raw : Text) : List ForbiddenHost :=
  let normalized := Text.trimFunc (fun c => c = '.') ((Text.trimSpace host).map d.lowering.toLower)
  if normalized = [] then []
  else if normalized ∈ denyHostnames ∨ (".localhost" : Text).isSuffixOf normalized then
    [⟨path, host⟩]
  else
    match d.parseAddr normalized with
    | none => []
    | some addr => if isDeniedIP addr d.allowPrivateSinks then [⟨path, raw⟩] else []

/-
  What only the dialer refuses: multicast, and the unspecified and the unroutable addresses in their
  mapped form.
-/
def Overlooked (a : Addr) : Prop :=
  (a.isMulticast ∧ ¬ a.isLinkLocalMulticast) ∨
    (a.unmap ≠ a ∧ (a.unmap.isUnspecified ∨ ∃ net ∈ unroutable, net.contains a.unmap))

variable {a b : Addr} {allow : Bool}

theorem isDeniedIP_eq_true : isDeniedIP a allow = true ↔
    a.isLoopback ∨ a.isLinkLocalUnicast ∨ a.isLinkLocalMulticast ∨ a.isUnspecified ∨
      (a.isPrivate ∧ allow = false) ∨ ∃ net ∈ denyCIDRs, net.contains (a.withZone []) := by
  unfold isDeniedIP
  split_ifs with hFirst hPrivate
  · simp only [Bool.or_eq_true] at hFirst
    tauto
  · simp_all
  · simp_all

theorem isDeniedIP_iff (hValid : a ≠ .zero) :
    isDeniedIP a allow = true ↔ validateAddress a allow ≠ .ok () ∧ ¬ Overlooked a := by
  rw [isDeniedIP_eq_true, ne_eq, validateAddress_eq_ok]
  unfold Overlooked Forbidden denyCIDRs unroutable ZonedUnspecified ipv6MetadataAddr
    Addr.isLoopback Addr.isLinkLocalUnicast Addr.isLinkLocalMulticast Addr.isMulticast
    Addr.isPrivate Addr.isUnspecified
  obtain ⟨k, hAllow⟩ : ∃ k : Nat, allow = false ↔ k = 0 := ⟨_, Bool.toNat_eq_zero.symm⟩
  cases a with
  | zero => exact absurd rfl hValid
  | v4 bits =>
    have hLt := bits.isLt
    simp [Addr.ofBits, Addr.unmap, Addr.withZone, Network.contains, Addr.leading,
      Nat.shiftRight_eq_div_pow, ← BitVec.toNat_inj, hAllow]
    omega
  | v6 bits zone =>
    have hLt := bits.isLt
    by_cases hMapped : Addr.leading 96 bits = 0xffff
    · simp [Addr.ofBits, Addr.unmap, Addr.withZone, Network.contains, hMapped, hAllow]
      simp [Addr.leading, Nat.shiftRight_eq_div_pow, ← BitVec.toNat_inj] at hMapped ⊢
      omega
    · have hAnd : Addr.leading 16 bits &&& 0xff0f ≤ Addr.leading 16 bits := Nat.and_le_left
      generalize hM : Addr.leading 16 bits &&& 0xff0f = m at hAnd
      by_cases hZone : zone = [] <;>
        simp [Addr.ofBits, Addr.unmap, Addr.withZone, Network.contains, hMapped, hZone, hM,
          hAllow] <;>
        simp [Addr.leading, Nat.shiftRight_eq_div_pow, ← BitVec.toNat_inj] at hMapped hAnd ⊢ <;>
        omega

theorem isDeniedIP_congr (hBits : b.withZone [] = a.withZone [])
    (hUnspecified : b.isUnspecified = a.isUnspecified) :
    isDeniedIP b allow = isDeniedIP a allow := by
  have hOf : ∀ four six, Addr.ofBits four six b = Addr.ofBits four six a := by
    intro four six
    rw [← Addr.ofBits_withZone four six [] b, hBits, Addr.ofBits_withZone]
  unfold isDeniedIP Addr.isLoopback Addr.isLinkLocalUnicast Addr.isLinkLocalMulticast Addr.isPrivate
  simp only [hOf, hBits, hUnspecified]

/- A literal of an address. Its normal form may have another zone, but not lose it. -/
structure LiteralHost (d : Dialer) (host : Text) (a : Addr) : Prop where
  parses : d.parseAddr host = some a
  valid : a ≠ .zero
  normal : ∀ b, d.parseAddr (d.normalizeHostname host) = some b → d.normalizeHostname host ≠ [] ∧
    b.withZone [] = a.withZone [] ∧ b.isUnspecified = a.isUnspecified

/- The guard of the dialer refuses the name, or an address of it. -/
def DialRefuses (d : Dialer) (network host : Text) : Prop :=
  d.refusesHost host = true ∨ ∃ addresses, (d.resolve network host).2 = .ok addresses ∧
    ∃ a ∈ addresses, d.validate host a ≠ .ok ()

/- Admission refuses the host exactly when the dialer does. -/
def SamePolicy (d : Dialer) (host : Text) : Prop :=
  ∀ network path raw, validateHost d host path raw ≠ [] ↔ DialRefuses d network host

variable {d : Dialer} {host : Text}

theorem dialRefuses_iff (hLiteral : LiteralHost d host a) (hOff : d.allowPrivate = false)
    (network : Text) : DialRefuses d network host ↔
      d.refusesHost host = true ∨ validateAddress a d.allowPrivateSinks ≠ .ok () := by
  have hUnmap : validateAddress a.unmap d.allowPrivateSinks =
      validateAddress a d.allowPrivateSinks := by
    rw [validateAddress, Addr.unmap_unmap, validateAddress]
  simp [DialRefuses, Dialer.resolve, hLiteral.parses, Dialer.validate, hOff,
    Fallible.mapError_eq_ok, hUnmap]

theorem validateHost_iff (hLiteral : LiteralHost d host a) (hOff : d.allowPrivate = false)
    (path raw : Text) : validateHost d host path raw ≠ [] ↔
      d.refusesHost host = true ∨ (d.parseAddr (d.normalizeHostname host)).isSome ∧
        isDeniedIP a d.allowPrivateSinks = true := by
  have hName : d.refusesHost host = true ↔ d.normalizeHostname host ∈ denyHostnames ∨
      (".localhost" : Text).isSuffixOf (d.normalizeHostname host) := by
    simp [Dialer.refusesHost, Dialer.isMetadataHostname, Dialer.isLocalhostHostname, hOff,
      localhostNames, metadataNames, denyHostnames]
    tauto
  have hNormal := hLiteral.normal
  rw [hName]
  unfold validateHost
  rw [← Dialer.normalizeHostname]
  generalize d.normalizeHostname host = normalized at hNormal
  dsimp only
  split_ifs with hEmpty hDeny
  · subst hEmpty
    have hNone : d.parseAddr [] = none := by
      rw [Option.eq_none_iff_forall_ne_some]
      exact fun b hParse => (hNormal b hParse).1 rfl
    simp [hNone, denyHostnames]
  · exact iff_of_true (List.cons_ne_nil _ _) (.inl hDeny)
  · cases hParse : d.parseAddr normalized with
    | none => simpa using hDeny
    | some b =>
      rcases hNormal b hParse with ⟨-, hBits, hUnspecified⟩
      rw [or_iff_right hDeny, ← isDeniedIP_congr hBits hUnspecified]
      simp

/-
  Admission and the dialer judge a literal alike exactly when its name is refused, the dialer takes
  it, or its normal form is still a literal and the address is not overlooked.
-/
theorem samePolicy_iff (hLiteral : LiteralHost d host a) (hOff : d.allowPrivate = false) :
    SamePolicy d host ↔ d.refusesHost host = true ∨ validateAddress a d.allowPrivateSinks = .ok () ∨
      (d.parseAddr (d.normalizeHostname host)).isSome ∧ ¬ Overlooked a := by
  simp only [SamePolicy, validateHost_iff hLiteral hOff, dialRefuses_iff hLiteral hOff,
    isDeniedIP_iff hLiteral.valid, forall_const]
  tauto

def literalDialer (a : Addr) : Dialer := { answeringDialer [] with parseAddr _ := some a }

/- Both refuse a private address. -/
theorem private_literal_is_judged_alike :
    SamePolicy (literalDialer (.v4 0x0a000001)) "10.0.0.1" := by
  refine (samePolicy_iff ⟨rfl, by simp, fun b hB => ⟨by decide, ?_⟩⟩ rfl).mpr
    (.inr (.inr ⟨rfl, ?_⟩))
  · cases hB
    exact ⟨rfl, rfl⟩
  · unfold Overlooked
    decide

/- A multicast address is admitted, and refused at the first dial. -/
theorem multicast_literal_is_admitted :
    validateHost (literalDialer (.v4 0xe0000101)) "224.0.1.1" "spec.endpoint" "224.0.1.1" = [] ∧
      DialRefuses (literalDialer (.v4 0xe0000101)) "tcp" "224.0.1.1" :=
  ⟨rfl, .inr ⟨_, rfl, _, List.mem_singleton_self _, by decide⟩⟩

end Validation
end Kollect
