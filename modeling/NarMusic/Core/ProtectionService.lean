/-
  The password that protects deletions (`infrastructure/auth/protection_service.h`):
  a verification of the password issues a token of 32 hexadecimal digits.

  The random number generator is the sequence `draws` of the digits it yields.
-/
import Mathlib.Data.Finset.Insert
import NarMusic.Lib.Bytes

namespace NarMusic

open Cxx

structure ProtectionService where
  password : Str
  tokens : Finset Str := ∅
  /-- How many digits have been drawn. -/
  drawn : ℕ := 0

namespace ProtectionService

def isEnabled (service : ProtectionService) : Bool := service.password ≠ []

def verifyPassword (service : ProtectionService) (input : Str) : Bool := input = service.password

def hex : Str := lit "0123456789abcdef"

/-- `length` digits of the generator, from the digit `start` on. -/
def randomHex (draws : ℕ → Fin 16) (start length : ℕ) : Str :=
  (List.range length).map fun i => hex.getD (draws (start + i)) 0

def generateToken (draws : ℕ → Fin 16) (service : ProtectionService) : Str × ProtectionService :=
  let token := randomHex draws service.drawn 32
  (token, { service with tokens := insert token service.tokens, drawn := service.drawn + 32 })

def validateToken (service : ProtectionService) (token : Str) : Bool :=
  if token = [] then false else token ∈ service.tokens

theorem randomHex_ascii (draws : ℕ → Fin 16) (start length : ℕ) :
    ∀ c ∈ randomHex draws start length, c < 0x80 := by
  intro c hc
  obtain ⟨i, -, rfl⟩ := List.mem_map.1 hc
  have hall : ∀ d : Fin 16, hex.getD d 0 < 0x80 := by decide
  exact hall _

theorem mem_of_validateToken {service : ProtectionService} {token : Str}
    (h : service.validateToken token = true) : token ∈ service.tokens := by
  unfold validateToken at h
  split_ifs at h
  simpa using h

end ProtectionService

end NarMusic
