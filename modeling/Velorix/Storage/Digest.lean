import Velorix.Storage.ObjectKey

/-! Content digests. SHA-256 is a parameter: all that is used of it is that a digest prints as 64
hex digits. -/
namespace Velorix.Storage

abbrev Bytes := List UInt8

structure Hash where
  hex : Bytes → String
  isHex : ∀ bytes, isSha256Hex (hex bytes) = true

def Hash.digestBytes (hash : Hash) (bytes : Bytes) : String := "sha256:" ++ hash.hex bytes

def isSha256Digest (value : String) : Bool :=
  match stripPrefix "sha256:" value with
  | none => false
  | some hex => isSha256Hex hex

/-- No two inputs of the set have one digest. -/
def Hash.CollisionFree (hash : Hash) (inputs : Set Bytes) : Prop := Set.InjOn hash.hex inputs

@[simp]
theorem stripPrefix_append (lead text : String) : stripPrefix lead (lead ++ text) = some text := by
  unfold stripPrefix
  rw [String.toList_append, List.dropPrefix?_append_of_beq _ (by simp)]
  simp

theorem isSha256Digest_digestBytes (hash : Hash) (bytes : Bytes) :
    isSha256Digest (hash.digestBytes bytes) = true := by
  unfold isSha256Digest Hash.digestBytes
  rw [stripPrefix_append]
  exact hash.isHex bytes

/-- `trim_start_matches`: the leading text is dropped as often as it occurs. -/
def trimStart (lead : List Char) : ℕ → List Char → List Char
  | 0, text => text
  | fuel + 1, text =>
    match text.dropPrefix? lead with
    | some rest => trimStart lead fuel rest
    | none => text

def trimStartMatches (lead value : String) : String :=
  String.ofList (trimStart lead.toList value.length value.toList)

theorem trimStartMatches_hex (hash : Hash) (bytes : Bytes) :
    trimStartMatches "sha256:" ("sha256:" ++ hash.hex bytes) = hash.hex bytes := by
  have hh := hash.isHex bytes
  simp only [isSha256Hex, Bool.and_eq_true, beq_iff_eq, List.all_eq_true] at hh
  have hn : (hash.hex bytes).toList.dropPrefix? "sha256:".toList = none := by
    rw [Option.eq_none_iff_forall_ne_some]
    intro rest hr
    obtain ⟨lead, ha, hlead⟩ := List.dropPrefix?_eq_some_iff.mp hr
    rw [eq_of_beq hlead] at ha
    have hm : 's' ∈ (hash.hex bytes).toList := by
      rw [ha]
      exact List.mem_append_left _ (by decide)
    exact absurd (hh.2 's' hm) (by decide)
  have hl : ("sha256:" ++ hash.hex bytes).length = 69 + 2 := by
    rw [String.length_append, hh.1]
    rfl
  unfold trimStartMatches
  rw [hl, trimStart, String.toList_append, List.dropPrefix?_append_of_beq _ (by simp)]
  show String.ofList (trimStart _ (69 + 1) _) = _
  rw [trimStart, hn]
  simp

end Velorix.Storage
