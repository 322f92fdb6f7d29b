import Inferno.Login.Credentials

/-!
# The hex digest

The loop of `hash_SHA_256`, over the bytes of a digest, with the stream that it writes them to: each has to
set the width again, or a byte below sixteen would be one digit.

## What is proved

* `hashSHA256_eq` — `hash_SHA_256` is the text of that stream.
* `hexDigest_faithful` — a digest can be read back from it, and it fills the token field of an auth datagram.
-/

namespace Inferno.Login

open CStr

/-- The loop of `hash_SHA_256`. -/
def formatDigest (hash : Fin 32 → UInt8) : OStream :=
  (List.finRange 32).foldl (fun ss i => ((ss.setHex.setw 2).setfill 48).put (hash i).toNat) .empty

/-- What `receive_new` takes for the token, of a buffer that a datagram is received into. -/
def tokenField (buffer datagram : Bytes) : Bytes := (copyAt buffer 0 datagram).take 64

/-- **What the loop writes**: a pair of digits for each byte. -/
theorem text_formatDigest (hash : Fin 32 → UInt8) : (formatDigest hash).text = (List.ofFn hash).flatMap Hex.pair := by
  have hloop : ∀ (is : List (Fin 32)) (ss : OStream),
      (is.foldl (fun ss i => ((ss.setHex.setw 2).setfill 48).put (hash i).toNat) ss).text =
        ss.text ++ (is.map hash).flatMap Hex.pair := by
    intro is
    induction is with
    | nil => simp
    | cons i is ih =>
      intro ss
      rw [List.foldl_cons, ih, OStream.put_byte, List.map_cons, List.flatMap_cons, List.append_assoc]
  rw [formatDigest, hloop, List.ofFn_eq_map]
  rfl

/-- **`hash_SHA_256`** returns the text of the stream. -/
theorem hashSHA256_eq (sha : Bytes → Fin 32 → UInt8) (input : Bytes) :
    hashSHA256 sha input = (formatDigest (sha input)).text := by
  rw [text_formatDigest, List.ofFn_eq_map, List.flatMap_map]
  rfl

theorem length_formatDigest (hash : Fin 32 → UInt8) : (formatDigest hash).text.length = 64 := by
  rw [← hashSHA256_eq (fun _ => hash) [], length_hashSHA256]

theorem nul_notMem_formatDigest (hash : Fin 32 → UInt8) : 0 ∉ (formatDigest hash).text := by
  rw [← hashSHA256_eq (fun _ => hash) []]
  exact nul_notMem_hashSHA256 _ _

/-- Its characters are digits. -/
theorem mem_formatDigest {hash : Fin 32 → UInt8} {c : UInt8} (hc : c ∈ (formatDigest hash).text) :
    c ∈ ascii "0123456789abcdef" := by
  have hdigit : ∀ n < 16, Hex.digit n ∈ ascii "0123456789abcdef" := by decide
  rw [text_formatDigest] at hc
  obtain ⟨b, -, hb⟩ := List.mem_flatMap.mp hc
  have hlt := b.toNat_lt
  rcases List.mem_cons.mp hb with rfl | hb
  · exact hdigit _ (by omega)
  · rw [List.mem_singleton.mp hb]
    exact hdigit _ (by omega)

/-- **A datagram begins with its token**, whatever the username. -/
theorem authContents_token (contents : Contents) {authToken : Bytes} (hnul : 0 ∉ authToken) (username : Bytes) :
    ∃ rest, authContents contents authToken username = authToken ++ rest := by
  have hcopied := cstr_strcpy (clear contents.bytes) hnul
  have htake : (strcpy (clear contents.bytes) authToken).take (strlen (strcpy (clear contents.bytes) authToken)) =
      authToken := by
    rw [strlen, hcopied, strcpy, copyAt, List.take_zero, List.nil_append, List.append_assoc, List.take_left]
  have hstrcat : ∃ behind, strcat (strcpy (clear contents.bytes) authToken) username = authToken ++ behind :=
    ⟨_, by rw [strcat, copyAt, htake, List.append_assoc]⟩
  obtain ⟨behind, hbehind⟩ := hstrcat
  have hlen : strlen (authToken ++ behind) = authToken.length + (cstr behind).length := by
    rw [strlen, cstr_append hnul, List.length_append]
  exact ⟨behind.take (cstr behind).length, by rw [authContents, hbehind, hlen, List.take_length_add_append]⟩

/-- So the token field has the token and nothing else. -/
theorem tokenField_authContents (buffer : Bytes) (contents : Contents) {authToken : Bytes} (hnul : 0 ∉ authToken)
    (hlen : authToken.length = 64) (username : Bytes) :
    tokenField buffer (authContents contents authToken username) = authToken := by
  obtain ⟨rest, hrest⟩ := authContents_token contents hnul username
  rw [tokenField, hrest, copyAt, List.take_zero, List.nil_append, List.append_assoc, ← hlen, List.take_left]

/-- **The digest is faithful.** -/
theorem hexDigest_faithful (hash : Fin 32 → UInt8) :
    (formatDigest hash).text.length = 64 ∧
      (∀ c ∈ (formatDigest hash).text, c ∈ ascii "0123456789abcdef") ∧
      Hex.decode (formatDigest hash).text = some (List.ofFn hash) ∧
      (∀ hash', (formatDigest hash').text = (formatDigest hash).text ↔ hash' = hash) ∧
      0 ∉ (formatDigest hash).text ∧
      ∀ buffer contents username,
        tokenField buffer (authContents contents (formatDigest hash).text username) = (formatDigest hash).text := by
  have hdecode : ∀ hash, Hex.decode (formatDigest hash).text = some (List.ofFn hash) := fun hash => by
    rw [text_formatDigest, Hex.decode_flatMap_pair]
  refine ⟨length_formatDigest hash, fun c => mem_formatDigest, hdecode hash, fun hash' => ?_,
    nul_notMem_formatDigest hash, fun buffer contents username => ?_⟩
  · constructor
    · intro htext
      have hsame := hdecode hash'
      rw [htext, hdecode, Option.some.injEq] at hsame
      exact (List.ofFn_injective hsame).symm
    · rintro rfl
      rfl
  · exact tokenField_authContents buffer contents (nul_notMem_formatDigest hash) (length_formatDigest hash) username

end Inferno.Login
