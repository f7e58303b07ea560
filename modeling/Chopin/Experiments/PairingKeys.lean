import Mathlib.Logic.Function.Basic

/-!
# Pairing keys

The single-use keys with which a machine pairs without a browser, and the authorizations they carry
(`experiments/pairing-keys.ts`).  A key is kept by its hash alone.  No code reads the order of a map's
entries, so each map is the function that reads it.

## What is here

* `PairingKeys` — the maps, with `authorize`, `authorized`, `ended`, `mint`, `peek`, `take` and `sweep`.
-/

set_option autoImplicit false

namespace Chopin.Experiments

open Function (update)

def PAIRING_KEY_MS : Int := 10 * 60000
def AUTHORIZATION_MS : Int := PAIRING_KEY_MS + 15 * 60000
def MINT_WINDOW_MS : Int := 10 * 60000
def MINTS_PER_WINDOW : Nat := 10

/-- `/^chopin_k_[A-Za-z0-9_-]{43}$/` -/
def isKey (key : String) : Bool :=
  "chopin_k_".toList.isPrefixOf key.toList && (key.toList.drop 9).length == 43 &&
    (key.toList.drop 9).all fun c ↦ c.isAlphanum || c == '_' || c == '-'

/-- What GitHub gives a machine, its lifetimes in seconds. -/
structure TokenGrant where
  accessToken : String
  accessExpiresIn : Int
  refreshToken : String
  refreshExpiresIn : Int
  deriving DecidableEq

structure Key where
  userId : String
  sessionId : String
  expiresAt : Int
  autoRun : Bool
  shared : Bool
  deriving DecidableEq

structure Held where
  grant : TokenGrant
  sessionId : String
  issuedAt : Int
  heldUntil : Int
  deriving DecidableEq

/-- Held from now on, as long as a key may need it and its access token lasts. -/
def Held.since (now : Int) (sessionId : String) (grant : TokenGrant) : Held :=
  { grant, sessionId, issuedAt := now, heldUntil := now + min AUTHORIZATION_MS (grant.accessExpiresIn * 1000) }

/-- What `mint` answers. -/
structure Minted where
  key : String
  expiresAt : Int
  expiresIn : Int
  deriving DecidableEq

/-- What a live key answers. -/
structure Found where
  userId : String
  grant : Option TokenGrant
  autoRun : Bool
  shared : Bool
  deriving DecidableEq

/-- The authorization that a key carries, its lifetimes counted from now. -/
def told (now : Int) (key : Key) (held : Option Held) : Option TokenGrant :=
  (held.filter fun held ↦ held.sessionId == key.sessionId && now < held.heldUntil).map fun held ↦
    -- `Math.ceil((now - issuedAt) / 1000)`
    let elapsed := -((held.issuedAt - now) / 1000)
    { held.grant with
      accessExpiresIn := max 0 (held.grant.accessExpiresIn - elapsed)
      refreshExpiresIn := max 0 (held.grant.refreshExpiresIn - elapsed) }

def Key.found (now : Int) (held : Option Held) (key : Key) : Found :=
  { userId := key.userId, grant := told now key held, autoRun := key.autoRun, shared := key.shared }

/-- The maps, over the hashes that `digest` makes; a hash is never the empty text. -/
structure PairingKeys (δ : Type) where
  keys : δ → Option Key
  /-- Each person's live key, by hash. -/
  current : String → Option δ
  grants : String → Option Held
  /-- When each person's last keys were minted; a missing entry reads as none. -/
  mints : String → List Int

namespace PairingKeys

variable {δ : Type}

def empty : PairingKeys δ :=
  { keys := fun _ ↦ none, current := fun _ ↦ none, grants := fun _ ↦ none, mints := fun _ ↦ [] }

def authorize (s : PairingKeys δ) (now : Int) (userId sessionId : String) (grant : TokenGrant) : PairingKeys δ :=
  { s with grants := update s.grants userId (some (Held.since now sessionId grant)) }

def authorized (s : PairingKeys δ) (now : Int) (userId sessionId : String) : Bool :=
  (s.grants userId).any fun held ↦ held.sessionId == sessionId && now + PAIRING_KEY_MS ≤ held.heldUntil

/-- The loop that `ended` and `sweep` share: the keys to go, each out of its owner's place too. -/
def drop (s : PairingKeys δ) (gone : Key → Bool) : PairingKeys δ :=
  { s with
    keys := fun hash ↦ (s.keys hash).filter (!gone ·)
    current := fun userId ↦ (s.current userId).filter fun hash ↦
      !(s.keys hash).any fun key ↦ gone key && key.userId == userId }

def ended (s : PairingKeys δ) (sessionId : String) : PairingKeys δ :=
  { s.drop (·.sessionId == sessionId) with
    grants := fun userId ↦ (s.grants userId).filter (·.sessionId != sessionId) }

def sweep (s : PairingKeys δ) (now : Int) : PairingKeys δ :=
  { s.drop (·.expiresAt ≤ now) with
    grants := fun userId ↦ (s.grants userId).filter (now < ·.heldUntil)
    mints := fun userId ↦
      if (s.mints userId).all (· ≤ now - MINT_WINDOW_MS) then [] else s.mints userId }

section

variable [DecidableEq δ] (digest : String → δ)

/-- A new key, whose text is `key`; a refused one has swept too. -/
def mint (s : PairingKeys δ) (now : Int) (userId sessionId : String) (autoRun shared : Bool) (key : String) :
    Except String Minted × PairingKeys δ :=
  let s := s.sweep now
  let recent := (s.mints userId).filter (now - MINT_WINDOW_MS < ·)
  if MINTS_PER_WINDOW ≤ recent.length then (.error "pairing-key-rate-limited", s)
  else
    let keys := (s.current userId).elim s.keys fun previous ↦ update s.keys previous none
    let expiresAt := now + PAIRING_KEY_MS
    (.ok { key, expiresAt, expiresIn := PAIRING_KEY_MS },
      { s with
        mints := update s.mints userId (recent ++ [now])
        keys := update keys (digest key) (some { userId, sessionId, expiresAt, autoRun, shared })
        current := update s.current userId (some (digest key)) })

def peek (s : PairingKeys δ) (now : Int) (key : String) : Except String Found :=
  match if isKey key then s.keys (digest key) else none with
  | none => .error "pairing-key-invalid"
  | some found =>
    if found.expiresAt ≤ now then .error "pairing-key-invalid"
    else .ok (found.found now (s.grants found.userId))

def take (s : PairingKeys δ) (now : Int) (key : String) : Except String Found × PairingKeys δ :=
  match s.peek digest now key with
  | .error refused => (.error refused, s)
  | .ok found =>
    (.ok found,
      { s with
        keys := update s.keys (digest key) none
        current := if s.current found.userId = some (digest key) then update s.current found.userId none
          else s.current
        grants := update s.grants found.userId none })

end

end PairingKeys

end Chopin.Experiments
