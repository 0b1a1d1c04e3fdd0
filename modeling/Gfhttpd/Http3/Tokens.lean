import Gfhttpd.Http3.Receiver

/-!
# Retry tokens as bytes (`main/http3/event_cb.c`)

`mint_token` copies its three parts into an array of `MAX_TOKEN_LEN` bytes, one behind the other.

- `mintTokenInto`: what the copies leave in the memory behind the pointer
- `mintTokenInto_spec`: the token is there, and nothing is written behind the array
- `tokens_exact`: `validate_token` undoes `mint_token`, and accepts nothing else
-/

namespace Gfhttpd.Http3

/-! ## The array of the token -/

/-- `sizeof(struct sockaddr_storage)`. -/
def SOCKADDR_STORAGE : ℕ := 128

/-- `MAX_TOKEN_LEN`. -/
def MAX_TOKEN_LEN : ℕ :=
  (ascii "quiche").length + SOCKADDR_STORAGE + QUICHE_MAX_CONN_ID_LEN

/-- `memcpy(mem + offset, src, n)` of the `n` bytes of `src`. -/
def memcpy (mem : Bytes) (offset : ℕ) (src : Bytes) : Bytes :=
  mem.take offset ++ src ++ mem.drop (offset + src.length)

/-- `mint_token`: the memory from `token` on, and `*token_len`. -/
def mintTokenInto (dcid addr token : Bytes) : Bytes × ℕ :=
  let token := memcpy token 0 (ascii "quiche")
  let token := memcpy token (ascii "quiche").length addr
  let token := memcpy token ((ascii "quiche").length + addr.length) dcid
  (token, (ascii "quiche").length + addr.length + dcid.length)

/-- A copy right behind what was copied before. -/
theorem memcpy_append (front src rest : Bytes) :
    memcpy (front ++ rest) front.length src = front ++ src ++ rest.drop src.length := by
  unfold memcpy
  rw [List.take_left, List.drop_append, List.drop_eq_nil_of_le (Nat.le_add_right _ _),
    List.nil_append, Nat.add_sub_cancel_left]

/-- The token stands in front of what was in the memory behind it. -/
theorem mintTokenInto_eq (dcid addr token : Bytes) :
    mintTokenInto dcid addr token =
      (mintToken dcid addr ++ token.drop (mintToken dcid addr).length,
        (mintToken dcid addr).length) := by
  -- the three copies stand one behind the other
  have hfirst : memcpy token 0 (ascii "quiche") =
      ascii "quiche" ++ token.drop (ascii "quiche").length := by
    simp [memcpy]
  have hthird := memcpy_append (ascii "quiche" ++ addr) dcid
    ((token.drop (ascii "quiche").length).drop addr.length)
  rw [List.length_append] at hthird
  unfold mintTokenInto mintToken
  simp only [hfirst, memcpy_append]
  rw [hthird]
  simp only [List.length_append, List.drop_drop]

/-- Where the address and the connection id have the sizes of their types, the copies stay in the
array. -/
theorem mintTokenInto_spec {dcid addr : Bytes} (hdcid : dcid.length ≤ QUICHE_MAX_CONN_ID_LEN)
    (haddr : addr.length ≤ SOCKADDR_STORAGE) (token : Bytes) :
    (mintTokenInto dcid addr token).2 ≤ MAX_TOKEN_LEN ∧
      (mintTokenInto dcid addr token).1.take (mintTokenInto dcid addr token).2 =
        mintToken dcid addr ∧
      (mintTokenInto dcid addr token).1.drop MAX_TOKEN_LEN = token.drop MAX_TOKEN_LEN := by
  have hlength : (mintToken dcid addr).length ≤ MAX_TOKEN_LEN := by
    unfold mintToken MAX_TOKEN_LEN
    rw [List.length_append, List.length_append]
    omega
  rw [mintTokenInto_eq]
  refine ⟨hlength, List.take_left, ?_⟩
  rw [List.drop_append, List.drop_eq_nil_of_le hlength, List.nil_append, List.drop_drop,
    Nat.add_sub_cancel' hlength]

/-! ## Both ways -/

/-- **For every address: `validate_token` accepts a token exactly if `mint_token` makes it of a
connection id that fits, and gives back this id; so the token of an id comes back for its address, and
fails for any other address of this length; and `mint_token` writes nothing behind its array.** -/
theorem tokens_exact (addr : Bytes) :
    (∀ token capacity odcid, validateToken token addr capacity = some odcid ↔
      odcid.length ≤ capacity ∧ token = mintToken odcid addr) ∧
    (∀ dcid, dcid.length ≤ QUICHE_MAX_CONN_ID_LEN →
      validateToken (mintToken dcid addr) addr QUICHE_MAX_CONN_ID_LEN = some dcid ∧
      ∀ addr', addr'.length = addr.length → addr' ≠ addr → ∀ capacity,
        validateToken (mintToken dcid addr) addr' capacity = none) ∧
    (addr.length ≤ SOCKADDR_STORAGE → ∀ dcid, dcid.length ≤ QUICHE_MAX_CONN_ID_LEN → ∀ token,
      (mintTokenInto dcid addr token).2 ≤ MAX_TOKEN_LEN ∧
        (mintTokenInto dcid addr token).1.take (mintTokenInto dcid addr token).2 =
          mintToken dcid addr ∧
        (mintTokenInto dcid addr token).1.drop MAX_TOKEN_LEN = token.drop MAX_TOKEN_LEN) := by
  refine ⟨fun token capacity odcid => validateToken_eq_some_iff, fun dcid hdcid => ⟨?_, ?_⟩,
    fun haddr dcid hdcid token => mintTokenInto_spec hdcid haddr token⟩
  · exact validateToken_eq_some_iff.mpr ⟨hdcid, rfl⟩
  · intro addr' hlength hne capacity
    rw [Option.eq_none_iff_forall_ne_some]
    intro odcid hsome
    -- a token begins with its address, and the two are as long
    have htoken := (validateToken_eq_some_iff.mp hsome).2
    exact hne (mintToken_addr hlength.symm htoken).symm

/-- A token of 4 bytes of address and 2 of connection id. -/
theorem tokens_exact_short :
    validateToken (mintToken [1, 2] [10, 0, 0, 1]) [10, 0, 0, 1] QUICHE_MAX_CONN_ID_LEN =
        some [1, 2] ∧
      validateToken (mintToken [1, 2] [10, 0, 0, 1]) [10, 0, 0, 2] QUICHE_MAX_CONN_ID_LEN = none := by
  obtain ⟨hback, hother⟩ := (tokens_exact [10, 0, 0, 1]).2.1 [1, 2] (by decide)
  exact ⟨hback, hother [10, 0, 0, 2] rfl (by decide) _⟩

end Gfhttpd.Http3
