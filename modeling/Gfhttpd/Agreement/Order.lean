import Gfhttpd.Agreement.Requests
import Mathlib.Data.List.Perm.Basic

/-!
# The order of the pseudo-headers on HTTP/2 (`main/http2/event_cb.c`)

`on_header_callback` leaves a request alone once its `url` is set, so what is recorded of a header
block depends on what comes before its `:path`.

- `RequestBlock`: a header block with any of the pseudo-headers, each once at most
- `blockRequest_recorded_iff`: the orders in which every pseudo-header is recorded
- `orderIndependent_iff`: the blocks for which the order makes no difference
-/

namespace Gfhttpd.Agreement

open Http Http2 Transition

/-! ## A block on any session -/

/-- The request of a stream whose header block is read in the session `s`. -/
def blockRequest (Code : Type) (s : Session) (frame : Frame) (fields : List (Bytes × Bytes)) :
    Option HttpRequest :=
  (sessionMachine.exec s (headerEvents Code frame fields)).bind fun s =>
    ((s.getUserData frame.streamId).bind s.get).map HttpStream.request

theorem getUserData_setUserData_self (s : Session) (streamId : ℤ) (p : ℕ) :
    (s.setUserData streamId p).getUserData streamId = some p := by
  have hnone : (s.userData.filter fun d => d.1 != streamId).find? (fun d => d.1 == streamId) = none := by
    rw [List.find?_eq_none]
    intro d hd
    have hne := (List.mem_filter.mp hd).2
    simpa using hne
  simp [Session.getUserData, Session.setUserData, Session.dropUserData, hnone]

/-- A new stream has an empty request. -/
theorem Reading.begins {s : Session} (hrunning : s.crashed = false ∧ s.tornDown = false)
    {frame : Frame} (h : frame.type = .headers ∧ frame.request = true) :
    Reading (onBeginHeadersCallback s frame) frame.streamId HttpStream.zero.request := by
  unfold onBeginHeadersCallback
  rw [if_neg (by simp [h.1, h.2])]
  refine ⟨hrunning, s.objs.length, { HttpStream.zero with streamId := frame.streamId, sock := -1 },
    getUserData_setUserData_self .., ?_, rfl⟩
  simp [Session.get, Session.setUserData, Session.dropUserData, createHttpStream, addStream]

/-- The request is a fold over the fields, whatever else the session holds. -/
theorem blockRequest_fold (Code : Type) {s : Session}
    (hrunning : s.crashed = false ∧ s.tornDown = false) {frame : Frame}
    (h : frame.type = .headers ∧ frame.request = true) (fields : List (Bytes × Bytes)) :
    blockRequest Code s frame fields = some (fields.foldl addField HttpStream.zero.request) := by
  obtain ⟨t, hexec, -, p, hs, hdata, hget, hreq⟩ :=
    (Reading.begins hrunning h).run Code h fields
  have hbegin : sessionMachine.step s (.beginHeaders frame : SessionEvent Code) =
      some (onBeginHeadersCallback s frame) := by
    simp [sessionMachine, sessionStep, hrunning.1, hrunning.2]
  have hall : sessionMachine.exec s (headerEvents Code frame fields) = some t :=
    sessionMachine.exec_cons_eq_some.mpr ⟨_, hbegin, hexec⟩
  unfold blockRequest
  rw [hall, Option.bind_some, hdata, Option.bind_some, hget, ← hreq]
  rfl

/-! ## Blocks -/

/-- A header block: any of the pseudo-headers, each once at most, and then the regular fields. -/
structure RequestBlock where
  pseudos : List (PseudoName × Bytes)
  regular : List (Bytes × Bytes)
  nodup : (pseudos.map Prod.fst).Nodup
  regularNames : ∀ f ∈ regular, f.1.head? ≠ some 58

/-- The fields, with the pseudo-headers in the order of `fs`. -/
def RequestBlock.fields (b : RequestBlock) (fs : List (PseudoName × Bytes)) : List (Bytes × Bytes) :=
  pseudoFields fs ++ b.regular

/-- A regular field is dropped. -/
theorem addField_regular {f : Bytes × Bytes} (h : f.1.head? ≠ some 58) (r : HttpRequest) :
    addField r f = r := by
  -- the name of a pseudo-header begins with a colon
  have hname : ∀ n : PseudoName, f.1 ≠ n.bytes := by
    intro n heq
    rw [heq] at h
    cases n <;> exact absurd rfl h
  unfold addField setPseudoHeader
  split
  · rfl
  · have hpath : f.1 ≠ ascii ":path" := hname .path
    have hmethod : f.1 ≠ ascii ":method" := hname .method
    have hauthority : f.1 ≠ ascii ":authority" := hname .authority
    have hscheme : f.1 ≠ ascii ":scheme" := hname .scheme
    rw [if_neg hpath, if_neg hmethod, if_neg hauthority, if_neg hscheme]

theorem foldl_addField_regular {fs : List (Bytes × Bytes)} (h : ∀ f ∈ fs, f.1.head? ≠ some 58)
    (r : HttpRequest) : fs.foldl addField r = r := by
  induction fs generalizing r with
  | nil => rfl
  | cons f fs ih =>
      rw [List.foldl_cons, addField_regular (h f (List.mem_cons_self ..))]
      exact ih (fun f' hf' => h f' (List.mem_cons_of_mem _ hf')) r

/-- The `:path` and what is in front of it are recorded, and nothing behind it. -/
theorem foldl_addField_path {before after : List (PseudoName × Bytes)} {v : Bytes}
    (hpath : .path ∉ before.map Prod.fst) :
    (pseudoFields (before ++ (.path, v) :: after)).foldl addField HttpStream.zero.request =
      setAll decodeField (before ++ [(.path, v)]) HttpStream.zero.request := by
  have hnone : (setAll decodeField before HttpStream.zero.request).url = none :=
    pseudo_setAll_of_not_mem decodeField hpath HttpStream.zero.request
  have hadd : addField (setAll decodeField before HttpStream.zero.request) (ascii ":path", v) =
      setPseudo (setAll decodeField before HttpStream.zero.request) .path (decodeField v) := by
    unfold addField
    rw [hnone, if_neg (by simp)]
    exact setPseudoHeader_bytes _ .path v
  unfold pseudoFields
  rw [List.map_append, List.foldl_append, List.map_cons, List.foldl_cons]
  have hbefore := foldl_addField_before hpath (r := HttpStream.zero.request) rfl
  unfold pseudoFields at hbefore
  rw [hbefore]
  -- with the `url` set, `on_header_callback` takes no more fields
  show List.foldl addField (addField (setAll _ _ _) (ascii ":path", v)) _ = _
  rw [hadd, foldl_addField_done rfl, setAll, setAll, List.foldl_append]
  rfl

/-! ## Recording -/

/-- Every one of the pseudo-headers is recorded with its decoded value. -/
def Recorded (fs : List (PseudoName × Bytes)) (r : HttpRequest) : Prop :=
  ∀ f ∈ fs, pseudo r f.1 = decodeField f.2

/-- Nothing comes behind the `:path`. -/
def PathLast (fs : List (PseudoName × Bytes)) : Prop :=
  .path ∉ fs.dropLast.map Prod.fst

/-- Every pseudo-header is recorded exactly in the orders in which the `:path` comes last. -/
theorem recorded_iff {fs : List (PseudoName × Bytes)} (hnodup : (fs.map Prod.fst).Nodup) :
    Recorded fs ((pseudoFields fs).foldl addField HttpStream.zero.request) ↔ PathLast fs := by
  by_cases hpath : .path ∈ fs.map Prod.fst
  · obtain ⟨⟨n, v⟩, hmem, hn⟩ := List.mem_map.mp hpath
    obtain rfl : n = .path := hn
    -- the only `:path` is between these
    obtain ⟨before, after, rfl⟩ := List.append_of_mem hmem
    have hparts := hnodup
    rw [List.map_append, List.map_cons] at hparts
    obtain ⟨-, hrest, hdisjoint⟩ := List.nodup_append.mp hparts
    have hbefore : .path ∉ before.map Prod.fst := fun hin =>
      hdisjoint _ hin _ (List.mem_cons_self ..) rfl
    rw [foldl_addField_path hbefore]
    cases after with
    | nil =>
        refine iff_of_true (fun f hf => pseudo_setAll_of_mem _ hnodup hf _) ?_
        unfold PathLast
        rwa [List.dropLast_concat]
    | cons f after =>
        -- the field behind the `:path` is there, and is not recorded
        apply iff_of_false
        · intro hall
          have hin : f ∈ before ++ (PseudoName.path, v) :: f :: after := by simp
          have hname : f.1 ∉ (before ++ [(PseudoName.path, v)]).map Prod.fst := by
            rw [List.map_append, List.mem_append, not_or]
            constructor
            · intro hfront
              exact hdisjoint f.1 hfront f.1 (by simp) rfl
            · intro hself
              have hne : f.1 = PseudoName.path := by simpa using hself
              exact (List.nodup_cons.mp hrest).1 (by simp [hne])
          have hnone := pseudo_setAll_of_not_mem decodeField hname HttpStream.zero.request
          rw [hall f hin, pseudo_zero] at hnone
          cases hnone
        · intro hlast
          unfold PathLast at hlast
          rw [List.dropLast_append_cons, List.dropLast_cons_cons] at hlast
          exact hlast (by simp)
  · -- without a `:path` every field is taken
    rw [foldl_addField_before hpath rfl]
    refine iff_of_true (fun f hf => pseudo_setAll_of_mem _ hnodup hf _) fun hin => hpath ?_
    obtain ⟨f, hf, hn⟩ := List.mem_map.mp hin
    exact List.mem_map.mpr ⟨f, List.dropLast_subset fs hf, hn⟩

/-- The request of a block, with the pseudo-headers in any order. -/
theorem blockRequest_recorded_iff (Code : Type) {s : Session}
    (hrunning : s.crashed = false ∧ s.tornDown = false) (streamId : ℤ) (endStream : Bool)
    (b : RequestBlock) {fs : List (PseudoName × Bytes)} (hperm : fs.Perm b.pseudos) :
    ∃ r, blockRequest Code s (requestFrame streamId endStream) (b.fields fs) = some r ∧
      (Recorded b.pseudos r ↔ PathLast fs) := by
  have hnodup : (fs.map Prod.fst).Nodup := (hperm.map Prod.fst).nodup_iff.mpr b.nodup
  refine ⟨(pseudoFields fs).foldl addField HttpStream.zero.request, ?_, ?_⟩
  · rw [blockRequest_fold Code hrunning ⟨rfl, rfl⟩, RequestBlock.fields, List.foldl_append,
      foldl_addField_regular b.regularNames]
  · rw [← recorded_iff hnodup]
    constructor
    · exact fun hall f hf => hall f (hperm.mem_iff.mp hf)
    · exact fun hall f hf => hall f (hperm.mem_iff.mpr hf)

/-! ## All orders -/

/-- In every order of its pseudo-headers the block gives a request with the same `url`, method,
scheme and authority, and each of them that is there is recorded. -/
def OrderIndependent (Code : Type) (s : Session) (frame : Frame) (b : RequestBlock) : Prop :=
  ∃ recorded : PseudoName → Option Bytes,
    (∀ fs, fs.Perm b.pseudos → ∃ r, blockRequest Code s frame (b.fields fs) = some r ∧
      pseudo r = recorded) ∧
    ∀ f ∈ b.pseudos, recorded f.1 = decodeField f.2

/-- Where each is set once, the order makes no difference. -/
theorem pseudo_setAll_perm (g : Bytes → Option Bytes) {fs fs' : List (PseudoName × Bytes)}
    (hnodup : (fs.map Prod.fst).Nodup) (hperm : fs'.Perm fs) (r : HttpRequest) :
    pseudo (setAll g fs' r) = pseudo (setAll g fs r) := by
  have hnodup' : (fs'.map Prod.fst).Nodup := (hperm.map Prod.fst).nodup_iff.mpr hnodup
  funext n
  by_cases hn : n ∈ fs.map Prod.fst
  · obtain ⟨f, hf, rfl⟩ := List.mem_map.mp hn
    rw [pseudo_setAll_of_mem g hnodup hf, pseudo_setAll_of_mem g hnodup' (hperm.mem_iff.mpr hf)]
  · have hn' : n ∉ fs'.map Prod.fst := fun hin => hn ((hperm.map Prod.fst).mem_iff.mp hin)
    rw [pseudo_setAll_of_not_mem g hn, pseudo_setAll_of_not_mem g hn']

/-- **The order of the pseudo-headers makes no difference, and all of them are recorded, exactly if
the block has no `:path`, or no other pseudo-header.** -/
theorem orderIndependent_iff (Code : Type) {s : Session}
    (hrunning : s.crashed = false ∧ s.tornDown = false) (streamId : ℤ) (endStream : Bool)
    (b : RequestBlock) :
    OrderIndependent Code s (requestFrame streamId endStream) b ↔
      (.path ∈ b.pseudos.map Prod.fst → b.pseudos.length = 1) := by
  constructor
  · rintro ⟨recorded, hall, hrecorded⟩ hpath
    -- the order with the `:path` in front
    obtain ⟨f, hf, hname⟩ := List.mem_map.mp hpath
    obtain ⟨rest, hperm⟩ : ∃ rest, (f :: rest).Perm b.pseudos :=
      ⟨_, (List.perm_cons_erase hf).symm⟩
    obtain ⟨r, hr, hpseudo⟩ := hall _ hperm
    obtain ⟨r', hr', hiff⟩ := blockRequest_recorded_iff Code hrunning streamId endStream b hperm
    rw [hr, Option.some_inj] at hr'
    subst hr'
    have hlast : PathLast (f :: rest) := by
      apply hiff.mp
      intro f' hf'
      rw [hpseudo]
      exact hrecorded f' hf'
    rw [← hperm.length_eq]
    cases rest with
    | nil => rfl
    | cons f' rest =>
        unfold PathLast at hlast
        rw [List.dropLast_cons_cons, List.map_cons, List.mem_cons, not_or] at hlast
        exact absurd hname.symm hlast.1
  · intro hcond
    by_cases hpath : .path ∈ b.pseudos.map Prod.fst
    · -- one field has one order only
      obtain ⟨f, hf⟩ := List.length_eq_one_iff.mp (hcond hpath)
      obtain ⟨r, hr, hiff⟩ := blockRequest_recorded_iff Code hrunning streamId endStream b
        (List.Perm.refl b.pseudos)
      refine ⟨pseudo r, fun fs hperm => ⟨r, ?_, rfl⟩, hiff.mpr ?_⟩
      · rw [hf, List.perm_singleton] at hperm
        rw [hperm, ← hf]
        exact hr
      · rw [hf]
        exact List.not_mem_nil
    · -- every order sets the same fields
      have hfold : ∀ fs, fs.Perm b.pseudos → blockRequest Code s (requestFrame streamId endStream)
          (b.fields fs) = some (setAll decodeField fs HttpStream.zero.request) := by
        intro fs hperm
        have hnot : .path ∉ fs.map Prod.fst := fun hin => hpath ((hperm.map _).mem_iff.mp hin)
        rw [blockRequest_fold Code hrunning ⟨rfl, rfl⟩, RequestBlock.fields, List.foldl_append,
          foldl_addField_regular b.regularNames, foldl_addField_before hnot rfl]
      refine ⟨pseudo (setAll decodeField b.pseudos HttpStream.zero.request), fun fs hperm =>
        ⟨_, hfold fs hperm, pseudo_setAll_perm decodeField b.nodup hperm _⟩, fun f hf => ?_⟩
      exact pseudo_setAll_of_mem _ b.nodup hf _

/-- A block of a request with a method only. -/
def methodBlock : RequestBlock where
  pseudos := [(.method, ascii "GET")]
  regular := []
  nodup := by decide
  regularNames := by decide

/-- Its one order is recorded. -/
theorem orderIndependent_method :
    OrderIndependent Unit Session.init (requestFrame 1 true) methodBlock :=
  (orderIndependent_iff Unit ⟨rfl, rfl⟩ 1 true methodBlock).mpr (by decide)

/-- The block of a `GET` request. -/
def getBlock : RequestBlock where
  pseudos := [(.method, ascii "GET"), (.path, ascii "/"), (.scheme, ascii "https"),
    (.authority, ascii "localhost")]
  regular := []
  nodup := by decide
  regularNames := by decide

/-- The scheme and the authority behind the `:path` are not recorded. -/
theorem not_orderIndependent_get :
    ¬ OrderIndependent Unit Session.init (requestFrame 1 true) getBlock := by
  rintro ⟨recorded, hall, hrecorded⟩
  obtain ⟨r, hr, hpseudo⟩ := hall _ (List.Perm.refl _)
  have hscheme : (blockRequest Unit Session.init (requestFrame 1 true)
      (getBlock.fields getBlock.pseudos)).bind (pseudo · .scheme) = none := by decide +kernel
  rw [hr, Option.bind_some, hpseudo, hrecorded (.scheme, ascii "https") (by decide)] at hscheme
  cases hscheme

end Gfhttpd.Agreement
