import AzaharPlus.Poke.Pk6
import AzaharPlus.Poke.Pocket
import AzaharPlus.Poke.Species

/-!
# The monitor

While a game runs, the emulator looks into guest memory every now and then: it reads the
party, notices where battles start and end, takes the Poké Balls away when no Pokémon may be
caught and gives them back afterwards, keeps the party at the level cap and turns fainted
Pokémon into dead ones.  `exportParty` is one such look.

The globals of the process and the files beside the executable are the fields of `Monitor`;
guest memory is passed along.  The level cap and the growth tables come from files of their
own and are, with the conversion of a dead Pokémon, an input (`Env`); what an undefined read
gives and whether `visRou.bin` can be written is chosen anew at every look (`Host`).
-/

namespace AzaharPlus.Poke

open Bytes BlockMemory

/-! ## Addresses -/

/-- `PARTY_ORAS`. -/
def partyOras : Nat := 0x8CF727C

/-- `WILD_ORAS`. -/
def wildOras : Nat := 0x81FFA6C

/-- `MAPID_ORAS`. -/
def mapidOras : Nat := 0x8D36774

/-- `PC_ORAS`. -/
def pcOras : Nat := 0x8C9A144

/-- `TID_ORAS`. -/
def tidOras : Nat := 0x8C7D350

/-- `SID_ORAS`. -/
def sidOras : Nat := 0x8C7D352

/-- `BATTLE_HP_SLOT_WILD`. -/
def battleHpSlotWild : Nat := 0x8204204

/-- `BATTLE_HP_SLOT_TRAINER`. -/
def battleHpSlotTrainer : Nat := 0x8205D14

/-- `BATTLE_HP_SLOT_STRIDE`. -/
def battleHpSlotStride : Nat := 580

/-- `POKEMON_SLOT_STRIDE`. -/
def pokemonSlotStride : Nat := 484

/-- `MAX_WILDS`. -/
abbrev maxWilds : Nat := 5

/-- `PARTY_SIZE`. -/
abbrev partySize : Nat := 6

/-- `PC_SIZE`. -/
def pcSize : Nat := 31 * 30

/-- The 16-bit word at an address. -/
def readWord (mem : Memory) (addr : Nat) : UInt16 := readLE16 (readBlock mem addr 2) 0

/-! ## Reading Pokémon -/

/-- `Pk6FullData`. -/
structure Pk6FullData where
  pid : UInt32
  species : UInt16
  metLocation : UInt8
  item : UInt16
  ability : UInt8
  experience : UInt32
  moves : Fin 4 → UInt16
  currentPP : Fin 4 → UInt8
  isShiny : Bool

/-- A global that was never written. -/
def Pk6FullData.zero : Pk6FullData := ⟨0, 0, 0, 0, 0, 0, fun _ => 0, fun _ => 0, false⟩

/-- What `ReadPk6Slot` takes from a decrypted buffer.  A wild Pokémon is shiny by the ids of
the player. -/
def pk6FullData (mem : Memory) (buf : List UInt8) (isWild : Bool) : Pk6FullData :=
  let pid := readLE32 buf 0x18
  let otTid := if isWild then readWord mem tidOras else readLE16 buf 0x0C
  let otSid := if isWild then readWord mem sidOras else readLE16 buf 0x0E
  let pidHigh := (pid >>> 16).toUInt16
  let pidLow := (pid &&& 0xFFFF).toUInt16
  { pid
    species := readLE16 buf 0x08
    metLocation := byteAt buf 0xDB
    item := readLE16 buf 0x0A
    ability := byteAt buf 0x14
    experience := readLE32 buf 0x10
    moves := fun i => readLE16 buf (0x5A + 2 * i)
    currentPP := fun i => byteAt buf (0x62 + i)
    isShiny := readLE16 buf 0x08 != 0 && decide (otTid ^^^ otSid ^^^ pidHigh ^^^ pidLow < 16) }

/-- `ReadPk6Slot`: its result and `*outPk6` after it. -/
def readPk6Slot (mem : Memory) (partySlot : Nat) (outPk6 : Pk6FullData) (isWild : Bool) :
    Bool × Pk6FullData :=
  if partySize ≤ partySlot then (false, outPk6)
  else
    let slotAddr := (if isWild then wildOras else partyOras) + partySlot * pokemonSlotStride
    let decrypted := decryptPk6InPlace (readBlock mem slotAddr pkmPartySize) pkmPartySize true
    if decrypted.1 then (true, pk6FullData mem decrypted.2 isWild) else (false, outPk6)

/-- `ReadPk6PCSlot`. -/
def readPk6PCSlot (mem : Memory) (pcSlot : Nat) : Nat :=
  let slotAddr := pcOras + pcSlot * pkmBoxSize
  let decrypted := decryptPk6InPlace (readBlock mem slotAddr pkmBoxSize) pkmBoxSize false
  if decrypted.1 then (readLE16 decrypted.2 0x08).toNat else 0

/-! ## Battles -/

/-- The six tests of `isBattle`: species, nature, sum of the EVs, ability number, Poké Ball
and language. -/
def battleTests (data : List UInt8) : List Bool :=
  let species := readLE16 data 0x08
  let evSum := ((List.range 6).map fun i => (byteAt data (0x1E + i)).toNat).sum
  let lang := byteAt data 0xE3
  [species != 0 && decide (species < 750), decide (byteAt data 0x1C ≤ 30), decide (evSum ≤ 520),
    decide (byteAt data 0x15 ≤ 5), decide (byteAt data 0xDC ≤ 30), decide (1 ≤ lang) && decide (lang ≤ 15)]

/-- `isBattle`: five of the tests pass. -/
def isBattle (mem : Memory) : Bool :=
  let decrypted := decryptPk6InPlace (readBlock mem wildOras pkmBoxSize) pkmBoxSize false
  decrypted.1 && decide (5 ≤ (battleTests decrypted.2).count true)

/-- `isBattleTrainer`. -/
def isBattleTrainer (mem : Memory) : Bool :=
  readWord mem (battleHpSlotWild + 0x0E4) == 0 && readWord mem (battleHpSlotWild + 0x006) == 0

/-- `ExportMapID`. -/
def exportMapID (mem : Memory) : UInt16 := readWord mem mapidOras

/-- `BattleSlotData`. -/
structure BattleSlotData where
  species : UInt16
  item : UInt16
  ability : UInt16
  level : UInt16
  moveIDs : Fin 4 → UInt16
  movePP : Fin 4 → UInt8

/-- A slot no Pokémon of the party fights in. -/
def BattleSlotData.zero : BattleSlotData := ⟨0, 0, 0, 0, fun _ => 0, fun _ => 0⟩

/-- The address of a battle slot. -/
def battleSlotAddr (mem : Memory) (slot : Nat) : Nat :=
  (if isBattleTrainer mem then battleHpSlotTrainer else battleHpSlotWild) + slot * battleHpSlotStride

/-- `ReadBattleSlot`. -/
def readBattleSlot (mem : Memory) (pokemonCarried slot : Nat) : BattleSlotData :=
  if pokemonCarried ≤ slot then BattleSlotData.zero
  else
    let base := battleSlotAddr mem slot
    { species := readWord mem (base + 0x0E4)
      item := readWord mem (base + 0x002)
      ability := readWord mem (base + 0x006)
      level := readWord mem (base + 0x008)
      moveIDs := fun i => readWord mem (base + 0x106 + 0x0E * i)
      movePP := fun i => mem (base + 0x108 + 0x0E * i) }

/-- `MatchBattleSlotToPk6`. -/
def matchBattleSlotToPk6 (b : BattleSlotData) (p : Pk6FullData) : Bool :=
  b.species == p.species && b.item == p.item && b.ability == p.ability.toUInt16 &&
    (List.finRange 4).all fun i => b.moveIDs i == p.moves i && b.movePP i == p.currentPP i

/-! ## State -/

/-- The globals of the process and the files under `user/rtp/p`. -/
structure Monitor where
  partyData : Fin partySize → Pk6FullData
  wildData : Fin maxWilds → Pk6FullData
  battleData : Fin partySize → BattleSlotData
  pokemonCarried : Nat
  wasInBattle : Bool
  pendingDelete : Fin partySize → Bool
  mainPocket : List ItemEntry
  removedPokeBalls : RemovedPokeBalls
  visitedRoutes : Routes
  caught : List Nat
  /-- `visRou.bin`, if there is one. -/
  visRou : Option (List UInt8)
  /-- `haspkb.bin` exists. -/
  haspkb : Bool
  /-- `DEp_Map.bin` exists. -/
  depMap : Bool
  /-- `puntos` and `muertes` of `pts.json`. -/
  puntos : Int
  muertes : Int

/-- The process is started again: the globals have their initial values, the files stay. -/
def Monitor.restart (s : Monitor) : Monitor :=
  { s with
    partyData := fun _ => Pk6FullData.zero
    wildData := fun _ => Pk6FullData.zero
    battleData := fun _ => BattleSlotData.zero
    pokemonCarried := 0
    wasInBattle := false
    pendingDelete := fun _ => false
    mainPocket := List.replicate slotCount ItemEntry.zero
    removedPokeBalls := fun _ => ItemEntry.zero
    visitedRoutes := SortedSet.empty
    caught := [] }

/-- What the monitor takes from files it does not write: the level cap, the growth tables,
and what `ConvertToDeadShedinjaInPlace` makes of a party slot. -/
structure Env where
  currentLevelCap : Nat
  getExperienceForLevel : UInt16 → Nat → UInt32
  convertToDeadShedinja : List UInt8 → Option (List UInt8)

/-- What the host does during one look: the undefined values that are read, and whether
`visRou.bin` can be opened for writing. -/
structure Host where
  junk : Junk
  writable : Bool

/-! ## The capture rules -/

/-- `saveVisitedRoutes`. -/
def Monitor.saveVisitedRoutes (host : Host) (s : Monitor) : Monitor :=
  if host.writable then { s with visRou := some (routesFile s.visitedRoutes) } else s

/-- `loadVisitedRoutes`. -/
def Monitor.loadVisitedRoutes (host : Host) (s : Monitor) : Monitor :=
  { s with visitedRoutes := Poke.loadVisitedRoutes host.junk s.visRou s.visitedRoutes }

/-- `g_visitedRoutes.insert(currentMapID); saveVisitedRoutes();`. -/
def Monitor.visit (host : Host) (s : Monitor) (mapID : UInt16) : Monitor :=
  ({ s with visitedRoutes := s.visitedRoutes.insert mapID } : Monitor).saveVisitedRoutes host

/-- `loadCaughtPokemon`: the species in the PC and in the party. -/
def loadCaughtPokemon (mem : Memory) (partyData : Fin partySize → Pk6FullData) : List Nat :=
  ((List.range pcSize).map (readPk6PCSlot mem) ++
    (List.finRange partySize).map fun i => (partyData i).species.toNat).filter (· != 0)

/-- Some wild Pokémon is shiny. -/
def Monitor.anyShiny (s : Monitor) : Bool :=
  (List.finRange maxWilds).any fun i => (s.wildData i).isShiny

/-- Some wild Pokémon is legendary. -/
def Monitor.anyLegendary (s : Monitor) : Bool :=
  (List.finRange maxWilds).any fun i => legendarySpecies.contains (s.wildData i).species

/-- Some wild Pokémon is of an evolution line that was caught. -/
def Monitor.anyCaughtLine (host : Host) (s : Monitor) : Bool :=
  (List.finRange maxWilds).any fun i =>
    hasEvolutionLine host.junk s.caught (s.wildData i).species.toNat && (s.wildData i).species != 0

/-- `ShouldRemove`. -/
def shouldRemove (host : Host) (mem : Memory) (s : Monitor) : Bool × Monitor :=
  if s.depMap then (false, s)
  else if isBattleTrainer mem then (false, s)
  else
    let s := s.loadVisitedRoutes host
    let currentMapID := exportMapID mem
    -- a shiny may be caught, but the route counts as visited
    if s.anyShiny then (false, if isBattle mem then s.visit host currentMapID else s)
    else if s.anyLegendary then (true, s)
    else if s.anyCaughtLine host then (true, s)
    else if currentMapID ∈ s.visitedRoutes then (true, s)
    else
      let s := if s.haspkb && isBattle mem then s.visit host currentMapID else s
      (false, s.saveVisitedRoutes host)

/-- The start of `RemovePokeballs`: the caught species are collected, and `haspkb.bin` is
created with the first Poké Ball. -/
def Monitor.prepare (mem : Memory) (s : Monitor) : Monitor :=
  { s with
    caught := loadCaughtPokemon mem s.partyData
    haspkb := s.haspkb ||
      (readPocket mem).any fun e => e.id != 0 && decide (e.id ≤ 16) && e.qty != 0 }

/-- `RemovePokeballs`. -/
def removePokeballs (host : Host) (mem : Memory) (s : Monitor) : Bool × Monitor × Memory :=
  let decision := shouldRemove host mem (s.prepare mem)
  if decision.1 then
    let taken := takeOut mem decision.2.removedPokeBalls
    (true, { decision.2 with mainPocket := taken.2.1, removedPokeBalls := taken.2.2 }, taken.1)
  else (false, decision.2, mem)

/-- `RestorePokeballs`. -/
def restorePokeballs (mem : Memory) (s : Monitor) : Monitor × Memory :=
  ({ s with
      mainPocket := List.replicate slotCount ItemEntry.zero
      removedPokeBalls := fun _ => ItemEntry.zero },
    putBack mem s.removedPokeBalls)

/-! ## The party -/

/-- The address of a party slot. -/
def partySlotAddr (slot : Fin partySize) : Nat := partyOras + slot * pokemonSlotStride

/-- The loop of `LevelCapAdjustment`. -/
def capSlots (env : Env) (partyData : Fin partySize → Pk6FullData) :
    List (Fin partySize) → Memory → Memory
  | [], mem => mem
  | slot :: slots, mem =>
      let p := partyData slot
      if p.species = 0 ∨ p.species > 721 then mem
      else
        let experienceMax := env.getExperienceForLevel p.species env.currentLevelCap
        let experienceMaxPlus := env.getExperienceForLevel p.species (env.currentLevelCap + 1)
        if p.experience > experienceMax then
          let mem := if p.experience ≥ experienceMaxPlus then removeCandies mem else mem
          let slotData := readBlock mem (partySlotAddr slot) pokemonSlotStride
          let decrypted := decryptPk6InPlace (slotData.take pkmPartySize) pkmPartySize true
          if decrypted.1 then
            let pk6Data := writeLE32 decrypted.2 0x10 experienceMax
            let pk6Data := writeLE16 pk6Data 0x06 (checksumMain pk6Data)
            let encrypted := encryptPk6InPlace pk6Data pkmPartySize true
            if encrypted.1 then
              capSlots env partyData slots (writeBlock mem (partySlotAddr slot)
                (memcpy slotData 0 encrypted.2) pokemonSlotStride)
            else capSlots env partyData slots mem
          else mem
        else capSlots env partyData slots mem

/-- `LevelCapAdjustment`. -/
def levelCapAdjustment (env : Env) (partyData : Fin partySize → Pk6FullData) (mem : Memory) : Memory :=
  if isBattle mem then mem
  else if env.currentLevelCap = 100 then mem
  else capSlots env partyData (List.finRange partySize) mem

/-- The slots of the party that are in use. -/
def carriedSlots (pokemonCarried : Nat) : List (Fin partySize) :=
  (List.finRange partySize).filter fun i => decide (i < pokemonCarried)

/-- The loop of `DeleteFaintedPokemon` over the battle slots: guest memory and the party
slots that were converted.  `WriteBlockStrideWithVerify` succeeds at its first attempt. -/
def deleteSlots (env : Env) (s : Monitor) : List (Fin partySize) → Memory → Memory × List (Fin partySize)
  | [], mem => (mem, [])
  | battleSlot :: slots, mem =>
      if s.pendingDelete battleSlot then
        match (carriedSlots s.pokemonCarried).find? fun partySlot =>
            matchBattleSlotToPk6 (s.battleData battleSlot) (s.partyData partySlot) with
        | none => deleteSlots env s slots mem
        | some partySlot =>
            let pkmData := readBlock mem (partySlotAddr partySlot) pkmPartySize
            match env.convertToDeadShedinja pkmData with
            | none => deleteSlots env s slots mem
            | some pkmData =>
                let rest := deleteSlots env s slots
                  (writeBlock mem (partySlotAddr partySlot) pkmData pkmPartySize)
                (rest.1, partySlot :: rest.2)
      else deleteSlots env s slots mem

/-- `PUNTOS_POR_MUERTE`. -/
def puntosPorMuerte : Int := 50

/-- `PUNTOS_POR_WIPE`. -/
def puntosPorWipe : Int := 100

/-- `DeleteFaintedPokemon`. -/
def deleteFaintedPokemon (env : Env) (mem : Memory) (s : Monitor) : Monitor × Memory :=
  let deleted := deleteSlots env s (carriedSlots s.pokemonCarried) mem
  let convertedCount := deleted.2.length
  ({ s with
      puntos := s.puntos - convertedCount * puntosPorMuerte -
        if convertedCount ≥ s.pokemonCarried then puntosPorWipe else 0
      muertes := s.muertes + convertedCount
      pendingDelete := fun _ => false },
    deleted.1)

/-- `CheckDeadPokemon`. -/
def checkDeadPokemon (mem : Memory) (s : Monitor) : Monitor :=
  if isBattle mem then
    { s with
      pendingDelete := fun slot =>
        s.pendingDelete slot || (readWord mem (battleSlotAddr mem slot) == 0 &&
          (s.partyData slot).pid != 0 && decide ((s.partyData slot).species ≤ 721) && s.haspkb) }
  else s

/-! ## One look -/

/-- Read the party into `g_partyData`. -/
def Monitor.readParty (mem : Memory) (s : Monitor) : Monitor :=
  { s with partyData := fun slot => (readPk6Slot mem slot (s.partyData slot) false).2 }

/-- `ExportWild`. -/
def exportWild (mem : Memory) (s : Monitor) : Monitor :=
  { s with wildData := fun slot => (readPk6Slot mem slot (s.wildData slot) true).2 }

/-- `OnBattleEnded`. -/
def onBattleEnded (env : Env) (mem : Memory) (s : Monitor) : Monitor × Memory :=
  let restored := restorePokeballs mem s
  deleteFaintedPokemon env restored.2 (restored.1.readParty restored.2)

/-- `OnBattleStarted`. -/
def onBattleStarted (host : Host) (mem : Memory) (s : Monitor) : Monitor × Memory :=
  (removePokeballs host mem (exportWild mem s)).2

/-- `CheckBattleTransition`. -/
def checkBattleTransition (env : Env) (host : Host) (mem : Memory) (s : Monitor) : Monitor × Memory :=
  let isBattleNow := isBattle mem
  let started := if !s.wasInBattle && isBattleNow then onBattleStarted host mem s else (s, mem)
  let ended := if s.wasInBattle && !isBattleNow then onBattleEnded env started.2 started.1 else started
  ({ ended.1 with wasInBattle := isBattleNow }, ended.2)

/-- The loop of `ExportParty` over the party slots. -/
def Monitor.readSlots (mem : Memory) (s : Monitor) : Monitor :=
  let read := s.readParty mem
  { read with
    battleData := fun slot =>
      if isBattle mem then readBattleSlot mem s.pokemonCarried slot else s.battleData slot
    pokemonCarried := (List.finRange partySize).countP fun slot => (read.partyData slot).pid != 0 }

/-- `ExportParty`. -/
def exportParty (env : Env) (host : Host) (mem : Memory) (s : Monitor) : Monitor × Memory :=
  let s := s.readSlots mem
  checkBattleTransition env host (levelCapAdjustment env s.partyData mem) s

/-- `MaybeExportParty` when its first timer has run out: fainted Pokémon are looked for, and
the party is exported if the second timer has run out as well. -/
def maybeExportParty (env : Env) (host : Host) (exportDue : Bool) (mem : Memory) (s : Monitor) :
    Monitor × Memory :=
  let s := checkDeadPokemon mem s
  if exportDue then exportParty env host mem s else (s, mem)

end AzaharPlus.Poke
