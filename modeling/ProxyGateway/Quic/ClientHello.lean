/-
# ProxyGateway.Quic.ClientHello — the SNI of a TLS ClientHello

`extractSNIFromClientHello` reads the host name out of the handshake bytes, found bare (as in a
CRYPTO frame) or inside a TLS record.  The Go function is one run of guarded offsets; here it is cut
at its three natural joints, in source order: `handshake` (record or bare), the fixed and
length-prefixed fields of the hello, and the walk over the extension block, which hands the body of
the `server_name` extension to `serverName`.

A returned pair `(s, true)` is `Scan.ok s`, `("", false)` is `Scan.reject`; both offsets that Go adds
in `uint16` (`2+sniListLen`, `3+sniLen`) keep their reduction modulo 2^16.

`extractSNIFromClientHello_safe`: every slice and index of the function is in bounds, on all bytes.
-/
import ProxyGateway.Quic.Varint

namespace ProxyGateway.Quic

open ProxyGateway.Lang

/-- `binary.BigEndian.Uint16(xs[lo : lo+2])`. -/
def uint16At (xs : Bytes) (lo : Nat) : Scan Nat := do
  let word ← slice xs lo (lo + 2)
  .ok (beNat word)

/-- The handshake message: the payload of a TLS record, or the bytes themselves. -/
def handshake (data : Bytes) : Scan Bytes := do
  let b0 ← index data 0
  if b0 = 0x16 then do
    let recordLen ← uint16At data 3
    refuseIf (data.length < 5 + recordLen)
    slice data 5 (5 + recordLen)
  else if b0 = 0x01 then .ok data
  else .reject

/-- The first host name of a `server_name` extension body. -/
def serverName (extData : Bytes) : Scan Bytes := do
  refuseIf (extData.length < 2)
  let sniListLen ← uint16At extData 0
  refuseIf (extData.length - 2 < sniListLen)
  let sniData ← slice extData 2 ((2 + sniListLen) % 65536)
  refuseIf (sniData.length < 3)
  let nameType ← index sniData 0
  refuseIf (nameType ≠ 0x00)
  let sniLen ← uint16At sniData 1
  refuseIf (sniData.length - 3 < sniLen)
  slice sniData 3 ((3 + sniLen) % 65536)

/-- The walk over the extension block from offset `eo` to the first extension of type 0. -/
def findServerName (extensions : Bytes) (eo : Nat) : Scan Bytes :=
  if _h : eo + 4 ≤ extensions.length then do
    let extType ← uint16At extensions eo
    let extDataLen ← uint16At extensions (eo + 2)
    refuseIf (extensions.length < eo + 4 + extDataLen)
    let extData ← slice extensions (eo + 4) (eo + 4 + extDataLen)
    if extType = 0x0000 then serverName extData
    else findServerName extensions (eo + (4 + extDataLen))
  else .reject
termination_by extensions.length - eo

/-- `extractSNIFromClientHello`. -/
def extractSNIFromClientHello (data : Bytes) : Scan Bytes := do
  refuseIf (data.length < 5)
  let hs ← handshake data
  refuseIf (hs.length < 4)
  let hsType ← index hs 0
  refuseIf (hsType ≠ 0x01)
  let hello ← sliceFrom hs 4
  refuseIf (hello.length < 34)
  let off := 34
  refuseIf (hello.length < off + 1)
  let sessionIDLen ← index hello off
  let off := off + 1
  refuseIf (hello.length < off + sessionIDLen.toNat + 2)
  let off := off + sessionIDLen.toNat
  let csLen ← uint16At hello off
  let off := off + 2
  refuseIf (hello.length < off + csLen + 1)
  let off := off + csLen
  let cmLen ← index hello off
  let off := off + 1
  refuseIf (hello.length < off + cmLen.toNat + 2)
  let off := off + cmLen.toNat
  let extLen ← uint16At hello off
  let off := off + 2
  refuseIf (hello.length < off + extLen)
  let extensions ← slice hello off (off + extLen)
  findServerName extensions 0

/-! ## Bounds -/

theorem safe_uint16At {xs : Bytes} {lo : Nat} (h : lo + 2 ≤ xs.length) :
    Safe (uint16At xs lo) (fun v => v < 65536) := by
  refine Safe.bind (safe_slice (by omega) h) fun word hword => ?_
  refine safe_ok ?_
  have hlt := beNat_lt word
  rw [hword, Nat.add_sub_cancel_left] at hlt
  exact hlt

theorem handshake_safe {data : Bytes} (h : 5 ≤ data.length) :
    Safe (handshake data) (fun _ => True) := by
  refine Safe.bind (safe_index (by omega)) fun b0 _ => ?_
  split
  · refine Safe.bind (safe_uint16At (by omega)) fun recordLen _ => ?_
    refine Safe.bind safe_refuseIf fun _ hlen => ?_
    exact (safe_slice (by omega) (by omega)).mono fun _ _ => trivial
  · split
    · exact safe_ok trivial
    · exact safe_reject

/-- The `uint16` sums of the extension body cannot wrap: a body is at most 65535 bytes long. -/
theorem serverName_safe {extData : Bytes} (h : extData.length < 65536) :
    Safe (serverName extData) (fun _ => True) := by
  refine Safe.bind safe_refuseIf fun _ h2 => ?_
  refine Safe.bind (safe_uint16At (by omega)) fun sniListLen _ => ?_
  refine Safe.bind safe_refuseIf fun _ hlist => ?_
  refine Safe.bind (safe_slice (by omega) (by omega)) fun sniData hsni => ?_
  refine Safe.bind safe_refuseIf fun _ h3 => ?_
  refine Safe.bind (safe_index (by omega)) fun nameType _ => ?_
  refine Safe.bind safe_refuseIf fun _ _ => ?_
  refine Safe.bind (safe_uint16At (by omega)) fun sniLen _ => ?_
  refine Safe.bind safe_refuseIf fun _ hname => ?_
  exact (safe_slice (by omega) (by omega)).mono fun _ _ => trivial

theorem findServerName_safe (extensions : Bytes) (eo : Nat) :
    Safe (findServerName extensions eo) (fun _ => True) := by
  induction eo using findServerName.induct extensions with
  | case1 eo h ih =>
    rw [findServerName, dif_pos h]
    refine Safe.bind (safe_uint16At (by omega)) fun extType _ => ?_
    refine Safe.bind (safe_uint16At (by omega)) fun extDataLen hext => ?_
    refine Safe.bind safe_refuseIf fun _ hin => ?_
    refine Safe.bind (safe_slice (by omega) (by omega)) fun extData hlen => ?_
    split
    · exact serverName_safe (by omega)
    · exact ih extDataLen
  | case2 eo h =>
    rw [findServerName, dif_neg h]
    exact safe_reject

/-- **`extractSNIFromClientHello_safe`** — no byte string makes the ClientHello parser panic. -/
theorem extractSNIFromClientHello_safe (data : Bytes) :
    Safe (extractSNIFromClientHello data) (fun _ => True) := by
  refine Safe.bind safe_refuseIf fun _ h5 => ?_
  refine Safe.bind (handshake_safe (by omega)) fun hs _ => ?_
  refine Safe.bind safe_refuseIf fun _ h4 => ?_
  refine Safe.bind (safe_index (by omega)) fun hsType _ => ?_
  refine Safe.bind safe_refuseIf fun _ _ => ?_
  refine Safe.bind (safe_sliceFrom (by omega)) fun hello _ => ?_
  refine Safe.bind safe_refuseIf fun _ h34 => ?_
  refine Safe.bind safe_refuseIf fun _ hsid => ?_
  refine Safe.bind (safe_index (by omega)) fun sessionIDLen _ => ?_
  refine Safe.bind safe_refuseIf fun _ hcs => ?_
  refine Safe.bind (safe_uint16At (by omega)) fun csLen _ => ?_
  refine Safe.bind safe_refuseIf fun _ hcm => ?_
  refine Safe.bind (safe_index (by omega)) fun cmLen _ => ?_
  refine Safe.bind safe_refuseIf fun _ hext => ?_
  refine Safe.bind (safe_uint16At (by omega)) fun extLen _ => ?_
  refine Safe.bind safe_refuseIf fun _ hend => ?_
  refine Safe.bind (safe_slice (by omega) (by omega)) fun extensions _ => ?_
  exact findServerName_safe extensions 0

end ProxyGateway.Quic
