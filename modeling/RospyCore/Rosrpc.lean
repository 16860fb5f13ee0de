import Mathlib

/-!
# ROSRPC URIs

`parse_rosrpc_uri` splits `rosrpc://<rest>` at the last colon of `<rest>`: what is before it
is the host, what is after it, cut at the first `/`, is the port.  With no colon, `<rest>` is
a local (unix domain socket) path.  The split is written here on the characters of the URI,
with Python's `str.rfind`, `str.find` and `int` as small functions of their own.

`parseRosrpcUri_host_port` and `parseRosrpcUri_path` are the two round trips: any host,
colons and slashes included, comes back whole, with the port, from
`rosrpc://host:port[/suffix]`, and a colon-free path comes back from `rosrpc://path`.  The
round trip for the port rests on `pyInt_toString`, Python's `int(str(n)) = n`.
-/

namespace RospyCore

/-! ### Python's string functions -/

/-- `s.find(c)`: the first index holding `c` (`-1`, written `none`, if there is none). -/
def findChar : List Char → Char → Option Nat
  | [], _ => none
  | x :: xs, c => if x = c then some 0 else (findChar xs c).map (· + 1)

/-- `s.find(c, start)`: the first index at or after `start` holding `c`. -/
def findFrom (s : List Char) (c : Char) (start : Nat) : Option Nat :=
  (findChar (s.drop start) c).map (· + start)

/-- `s.rfind(c)`: the last index holding `c`. -/
def rfindChar : List Char → Char → Option Nat
  | [], _ => none
  | x :: xs, c =>
    match rfindChar xs c with
    | some i => some (i + 1)
    | none => if x = c then some 0 else none

theorem findChar_eq_none {c : Char} : ∀ {s : List Char}, c ∉ s → findChar s c = none
  | [], _ => rfl
  | x :: xs, h => by
    rw [List.mem_cons, not_or] at h
    simp [findChar, Ne.symm h.1, findChar_eq_none h.2]

theorem findChar_append {c : Char} : ∀ {xs : List Char} (ys : List Char), c ∉ xs →
    findChar (xs ++ ys) c = (findChar ys c).map (· + xs.length)
  | [], ys, _ => by simp
  | x :: xs, ys, h => by
    rw [List.mem_cons, not_or] at h
    simp [findChar, Ne.symm h.1, findChar_append ys h.2, Option.map_map, Function.comp_def,
      Nat.add_assoc]

theorem rfindChar_eq_none {c : Char} : ∀ {s : List Char}, c ∉ s → rfindChar s c = none
  | [], _ => rfl
  | x :: xs, h => by
    rw [List.mem_cons, not_or] at h
    simp [rfindChar, rfindChar_eq_none h.2, Ne.symm h.1]

/-- **The last colon.** -/
theorem rfindChar_append_cons {c : Char} {ys : List Char} (hy : c ∉ ys) :
    ∀ xs : List Char, rfindChar (xs ++ c :: ys) c = some xs.length
  | [] => by simp [rfindChar, rfindChar_eq_none hy]
  | x :: xs => by simp [rfindChar, rfindChar_append_cons hy xs]

/-! ### Python's `int` on a string -/

/-- The whitespace `int()` strips (the ASCII part of `str.isspace`). -/
def isPySpace (c : Char) : Bool :=
  c = ' ' || ('\t' ≤ c && c ≤ '\r') || ('\x1c' ≤ c && c ≤ '\x1f')

/-- The decimal digits `d ('_'? d)*`; `afterDigit` says the last character read was a digit,
which an underscore needs, and so does the end. -/
def decimalAux : List Char → Nat → Bool → Option Nat
  | [], acc, afterDigit => if afterDigit then some acc else none
  | c :: cs, acc, afterDigit =>
    if c.isDigit then decimalAux cs (10 * acc + (c.toNat - '0'.toNat)) true
    else if c = '_' ∧ afterDigit then decimalAux cs acc false
    else none

/-- `str.strip()`: leading and trailing whitespace removed. -/
def strip (cs : List Char) : List Char :=
  ((cs.dropWhile isPySpace).reverse.dropWhile isPySpace).reverse

/-- `int(s)` for a string `s`: whitespace, an optional sign, then decimal digits. -/
def pyInt (s : String) : Option Int :=
  match strip s.data with
  | [] => none
  | c :: ds =>
    if c = '-' then (decimalAux ds 0 false).map fun n => -(n : Int)
    else if c = '+' then (decimalAux ds 0 false).map Int.ofNat
    else (decimalAux (c :: ds) 0 false).map Int.ofNat

/-- One decimal digit read into the accumulator. -/
def digitStep (acc : Nat) (c : Char) : Nat := 10 * acc + (c.toNat - '0'.toNat)

/-- A character `str(n)` writes for a digit. -/
def IsDecimal (c : Char) : Prop := c.isDigit ∧ isPySpace c = false

instance : DecidablePred IsDecimal := fun _ => inferInstanceAs (Decidable (_ ∧ _))

theorem decimalAux_digits : ∀ (ds : List Char) (acc : Nat) (b : Bool),
    ds ≠ [] → (∀ c ∈ ds, IsDecimal c) → decimalAux ds acc b = some (ds.foldl digitStep acc)
  | [], _, _, h, _ => absurd rfl h
  | [c], acc, b, _, hd => by simp_all [decimalAux, digitStep, IsDecimal]
  | c :: d :: ds, acc, b, _, hd => by
    rw [List.forall_mem_cons] at hd
    rw [decimalAux, if_pos hd.1.1, List.foldl_cons]
    exact decimalAux_digits (d :: ds) _ true (List.cons_ne_nil _ _) hd.2

theorem digitChar_facts : ∀ k < 10, IsDecimal (Nat.digitChar k) ∧
    (Nat.digitChar k).toNat - '0'.toNat = k := by decide

/-- What `Nat.toDigitsCore` writes in front of `acc`: the digits of `n`, most significant
first, given enough fuel. -/
theorem toDigitsCore_digits : ∀ (fuel n : Nat) (acc : List Char), n < fuel →
    ∃ L, Nat.toDigitsCore 10 fuel n acc = L ++ acc ∧ L ≠ [] ∧ (∀ c ∈ L, IsDecimal c) ∧
      L.foldl digitStep 0 = n
  | 0, _, _, h => absurd h (Nat.not_lt_zero _)
  | fuel + 1, n, acc, h => by
    obtain ⟨hdig, hval⟩ := digitChar_facts (n % 10) (Nat.mod_lt _ (by decide))
    by_cases hq : n / 10 = 0
    · refine ⟨[Nat.digitChar (n % 10)], by simp [Nat.toDigitsCore, hq], by simp, by simpa, ?_⟩
      simp only [List.foldl, digitStep, hval]
      omega
    · obtain ⟨L, hL, hne, hd, hv⟩ :=
        toDigitsCore_digits fuel (n / 10) (Nat.digitChar (n % 10) :: acc) (by omega)
      refine ⟨L ++ [Nat.digitChar (n % 10)], by simp [Nat.toDigitsCore, hq, hL], by simp, ?_, ?_⟩
      · simpa [or_imp, forall_and] using ⟨hd, hdig⟩
      · simp only [List.foldl_append, hv, List.foldl, digitStep, hval]
        omega

theorem strip_of_forall {cs : List Char} (h : ∀ c ∈ cs, isPySpace c = false) : strip cs = cs := by
  have hd : ∀ l : List Char, (∀ c ∈ l, isPySpace c = false) → l.dropWhile isPySpace = l
    | [], _ => rfl
    | c :: l, h => List.dropWhile_cons_of_neg (by simp [h c (List.mem_cons_self _ _)])
  rw [strip, hd cs h, hd cs.reverse (by simpa using h), List.reverse_reverse]

/-- **`int(str(n)) = n`** for every integer `n`. -/
theorem pyInt_toString (n : Int) : pyInt (toString n) = some n := by
  have key : ∀ m : Nat, ∃ c ds, (Nat.repr m).data = c :: ds ∧ IsDecimal c ∧
      (∀ d ∈ ds, IsDecimal d) ∧ decimalAux (c :: ds) 0 false = some m := by
    intro m
    obtain ⟨L, hL, hne, hd, hv⟩ := toDigitsCore_digits (m + 1) m [] (Nat.lt_succ_self m)
    obtain ⟨c, ds, rfl⟩ := List.exists_cons_of_ne_nil hne
    refine ⟨c, ds, by rw [Nat.repr, Nat.toDigits, hL, List.append_nil]; rfl, hd c (List.mem_cons_self _ _),
      fun d h => hd d (List.mem_cons_of_mem _ h), ?_⟩
    rw [decimalAux_digits _ 0 false hne hd, hv]
  cases n with
  | ofNat m =>
    obtain ⟨c, ds, hrep, hc, hds, hval⟩ := key m
    have hs : strip (c :: ds) = c :: ds :=
      strip_of_forall (by simpa [IsDecimal] using fun d hd => (List.forall_mem_cons.2 ⟨hc, hds⟩ d hd).2)
    have h1 : c ≠ '-' := by rintro rfl; exact absurd hc.1 (by decide)
    have h2 : c ≠ '+' := by rintro rfl; exact absurd hc.1 (by decide)
    show pyInt ⟨(Nat.repr m).data⟩ = _
    simp [pyInt, hrep, hs, h1, h2, hval]
  | negSucc m =>
    obtain ⟨c, ds, hrep, hc, hds, hval⟩ := key (m + 1)
    have hs : strip ('-' :: c :: ds) = '-' :: c :: ds := by
      apply strip_of_forall
      simp only [List.mem_cons, forall_eq_or_imp]
      exact ⟨by decide, hc.2, fun d hd => (hds d hd).2⟩
    show pyInt ⟨('-' :: (Nat.repr (m + 1)).data)⟩ = _
    simp [pyInt, hrep, hs, hval, Int.negSucc_eq]

/-- Every character of `str(n)` is a sign or a digit. -/
theorem toString_int_chars (n : Int) : ∀ c ∈ (toString n).data, c = '-' ∨ IsDecimal c := by
  have hrep : ∀ m : Nat, ∀ c ∈ (Nat.repr m).data, IsDecimal c := by
    intro m
    obtain ⟨L, hL, -, hd, -⟩ := toDigitsCore_digits (m + 1) m [] (Nat.lt_succ_self m)
    rw [Nat.repr, Nat.toDigits, hL, List.append_nil]
    exact hd
  cases n with
  | ofNat m => exact fun c hc => Or.inr (hrep m c hc)
  | negSucc m =>
    intro c hc
    rcases List.mem_cons.1 (show c ∈ '-' :: (Nat.repr (m + 1)).data from hc) with h | h
    · exact Or.inl h
    · exact Or.inr (hrep _ c h)

theorem char_not_mem_toString_int {c : Char} (hm : c ≠ '-') (hd : ¬ IsDecimal c) (n : Int) :
    c ∉ (toString n).data := fun h => (toString_int_chars n c h).elim hm hd

/-! ### `parse_rosrpc_uri` -/

/-- The prefix of a ROSRPC URI. -/
def ROSRPC : String := "rosrpc://"

/-- `rospy.impl.validators.ParameterInvalid`, with its message. -/
structure ParameterInvalid where
  message : String
  deriving DecidableEq, Repr

/-- What `parse_rosrpc_uri` returns: `uds_path`, or `(address, port)`. -/
inductive RosrpcDest where
  | udsPath (path : String)
  | hostPort (address : String) (port : Int)
  deriving DecidableEq, Repr

/-- `parse_rosrpc_uri(uri)`.  The `try` covers the whole split, but only `int` can fail in
it. -/
def parseRosrpcUri (uri : String) : Except ParameterInvalid RosrpcDest :=
  if ROSRPC.data.isPrefixOf uri.data then
    let destAddr := uri.data.drop ROSRPC.length
    match rfindChar destAddr ':' with
    | none => .ok (.udsPath ⟨destAddr⟩)
    | some colonPos =>
      let destAddr := match findFrom destAddr '/' colonPos with
        | some slashPos => destAddr.take slashPos
        | none => destAddr
      match pyInt ⟨destAddr.drop (colonPos + 1)⟩ with
      | some destPort => .ok (.hostPort ⟨destAddr.take colonPos⟩ destPort)
      | none => .error ⟨"ROS service URL is invalid: " ++ uri⟩
  else .error ⟨"Invalid protocol for ROS service URL: " ++ uri⟩

/-- Every error names the URI, after the one of the two messages that says what was wrong. -/
theorem parseRosrpcUri_error {uri : String} {e : ParameterInvalid}
    (h : parseRosrpcUri uri = .error e) :
    e.message = "Invalid protocol for ROS service URL: " ++ uri ∨
      e.message = "ROS service URL is invalid: " ++ uri := by
  unfold parseRosrpcUri at h
  dsimp only at h
  split at h
  · split at h
    · cases h
    · split at h
      · cases h
      · cases h; exact Or.inr rfl
  · cases h; exact Or.inl rfl

theorem rosrpc_isPrefixOf (rest : List Char) : ROSRPC.data.isPrefixOf (ROSRPC.data ++ rest) := by
  simp [List.isPrefixOf_iff_prefix]

theorem drop_rosrpc (rest : List Char) : (ROSRPC.data ++ rest).drop ROSRPC.length = rest :=
  List.drop_left' rfl

/-- **The round trip for `host:port`.**  The host may hold colons (an IPv6 literal) and
slashes; the suffix, empty or a path, holds no colon. -/
theorem parseRosrpcUri_host_port (h suffix : String) (n : Int)
    (hs : suffix = "" ∨ ∃ rest, suffix = "/" ++ rest) (hc : ':' ∉ suffix.data) :
    parseRosrpcUri ("rosrpc://" ++ h ++ ":" ++ toString n ++ suffix) = .ok (.hostPort h n) := by
  set ds := (toString n).data with hds
  have hcolon : ':' ∉ ds ++ suffix.data := by
    rw [List.mem_append, not_or]
    exact ⟨char_not_mem_toString_int (by decide) (by decide) n, hc⟩
  have hslash : '/' ∉ ds := char_not_mem_toString_int (by decide) (by decide) n
  have hdata : ("rosrpc://" ++ h ++ ":" ++ toString n ++ suffix).data =
      ROSRPC.data ++ (h.data ++ ':' :: (ds ++ suffix.data)) := by simp [ROSRPC, hds]
  have hcut : (match findFrom (h.data ++ ':' :: (ds ++ suffix.data)) '/' h.data.length with
      | some slashPos => (h.data ++ ':' :: (ds ++ suffix.data)).take slashPos
      | none => h.data ++ ':' :: (ds ++ suffix.data)) = h.data ++ ':' :: ds := by
    rcases hs with rfl | ⟨rest, rfl⟩
    · simp [findFrom, findChar, findChar_eq_none hslash]
    · have hfind : findFrom (h.data ++ ':' :: (ds ++ ("/" ++ rest).data)) '/' h.data.length =
          some (h.data ++ ':' :: ds).length := by
        simp [findFrom, findChar, findChar_append _ hslash]
        omega
      rw [hfind, show h.data ++ ':' :: (ds ++ ("/" ++ rest).data) =
        (h.data ++ ':' :: ds) ++ ("/" ++ rest).data by simp]
      exact List.take_left _ _
  have hport : pyInt ⟨ds⟩ = some n := pyInt_toString n
  simp only [parseRosrpcUri, hdata, rosrpc_isPrefixOf, if_true, drop_rosrpc,
    rfindChar_append_cons hcolon, hcut]
  have hdrop : (h.data ++ ':' :: ds).drop (h.data.length + 1) = ds := by
    rw [← List.singleton_append, ← List.append_assoc]
    exact List.drop_left' (by rw [List.length_append]; rfl)
  simp only [hdrop, hport, List.take_left]

/-- **The round trip for a local path.** -/
theorem parseRosrpcUri_path (p : String) (hp : ':' ∉ p.data) :
    parseRosrpcUri ("rosrpc://" ++ p) = .ok (.udsPath p) := by
  have hdata : ("rosrpc://" ++ p).data = ROSRPC.data ++ p.data := by simp [ROSRPC]
  simp only [parseRosrpcUri, hdata, rosrpc_isPrefixOf, if_true, drop_rosrpc, rfindChar_eq_none hp]

/-- **Both shapes round-trip**: `rosrpc://host:port[/suffix]` gives back `(host, port)` for
every host and every integer port, and `rosrpc://path` gives back a colon-free path. -/
theorem parseRosrpcUri_round_trip :
    (∀ (h suffix : String) (n : Int), (suffix = "" ∨ ∃ rest, suffix = "/" ++ rest) →
      ':' ∉ suffix.data →
        parseRosrpcUri ("rosrpc://" ++ h ++ ":" ++ toString n ++ suffix) = .ok (.hostPort h n)) ∧
    (∀ p : String, ':' ∉ p.data → parseRosrpcUri ("rosrpc://" ++ p) = .ok (.udsPath p)) :=
  ⟨parseRosrpcUri_host_port, parseRosrpcUri_path⟩

theorem parseRosrpcUri_ipv6_and_path :
    parseRosrpcUri ("rosrpc://" ++ "[::1]" ++ ":" ++ toString (9090 : Int) ++ "/extra") =
        .ok (.hostPort "[::1]" 9090) ∧
      parseRosrpcUri ("rosrpc://" ++ "somepath") = .ok (.udsPath "somepath") :=
  ⟨parseRosrpcUri_round_trip.1 "[::1]" "/extra" 9090 (Or.inr ⟨"extra", rfl⟩) (by decide),
    parseRosrpcUri_round_trip.2 "somepath" (by decide)⟩

end RospyCore
