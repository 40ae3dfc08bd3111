import Mathlib.Tactic

/-! The parameter layout of `EepromPram.c`: which table entry a parameter ID selects, and
where and in which format that entry is stored. Each table has `E2_PRAM_ID_INDEX_MAX`
entries, sixteen to a line; the last one is the zero that C supplies. -/
namespace VehicleTerminal.EepromPram

def e2SystemDefineIdMax : ℕ := 0x118

def e2PramBaseCustomId : ℕ := 0xF200

def e2PramIdIndexMax : ℕ := 439

def e2AllDriverInformationId : ℕ := 0xF20D

def e2UpdataUrlId : ℕ := 0xF21F

/-- `EepromPramAddress`: the first byte of the record of an entry. -/
def eepromPramAddress : List ℕ :=
  [0, 10, 15, 20, 25, 30, 35, 40, 0, 0, 0, 0, 0, 0, 0, 0,
    45, 70, 95, 120, 145, 170, 195, 220, 245, 250, 1900, 1941, 1946, 1951, 0, 0,
    315, 320, 325, 0, 0, 0, 0, 330, 335, 340, 0, 0, 345, 350, 355, 360,
    365, 1700, 0, 0, 0, 0, 0, 0, 0, 0, 0, 0, 0, 0, 0, 0,
    370, 395, 420, 445, 470, 495, 500, 505, 510, 535, 0, 0, 0, 0, 0, 0,
    560, 565, 570, 575, 580, 585, 590, 595, 600, 605, 610, 1992, 1995, 1998, 2001, 0,
    0, 0, 0, 0, 2004, 2009, 0, 0, 0, 0, 0, 0, 0, 0, 0, 0,
    615, 620, 625, 630, 635, 0, 0, 0, 0, 0, 0, 0, 0, 0, 0, 0,
    640, 645, 650, 655, 680, 0, 0, 0, 0, 0, 0, 0, 0, 0, 0, 0,
    2014, 2016, 2018, 2020, 2025, 2027, 0, 0, 0, 0, 0, 0, 0, 0, 0, 0,
    0, 0, 0, 0, 0, 0, 0, 0, 0, 0, 0, 0, 0, 0, 0, 0,
    0, 0, 0, 0, 0, 0, 0, 0, 0, 0, 0, 0, 0, 0, 0, 0,
    0, 0, 0, 0, 0, 0, 0, 0, 0, 0, 0, 0, 0, 0, 0, 0,
    0, 0, 0, 0, 0, 0, 0, 0, 0, 0, 0, 0, 0, 0, 0, 0,
    0, 0, 0, 0, 0, 0, 0, 0, 0, 0, 0, 0, 0, 0, 0, 0,
    0, 0, 0, 0, 0, 0, 0, 0, 0, 0, 0, 0, 0, 0, 0, 0,
    2032, 2037, 2040, 2045, 0, 0, 0, 0, 0, 0, 0, 0, 0, 0, 0, 0,
    2048, 2058, 2785, 2795, 2805, 2815, 2825, 2835, 685, 710, 735, 740, 745, 750, 760, 770,
    790, 815, 840, 850, 875, 885, 1140, 1145, 1150, 1155, 1160, 1165, 1170, 1175, 1180, 1205,
    1230, 1255, 1280, 1285, 1290, 1315, 1340, 1365, 1565, 1570, 1595, 1605, 1630, 1635, 1645, 1665,
    1670, 1675, 1680, 1690, 1695, 1705, 1710, 1715, 1720, 1725, 1730, 1735, 1740, 1745, 1865, 1870,
    1875, 1880, 1885, 1890, 0, 0, 0, 0, 2651, 2068, 2073, 2110, 2115, 2120, 0, 0,
    0, 0, 2435, 2440, 2125, 2127, 2130, 2132, 2139, 2144, 2175, 2180, 2185, 2200, 2232, 2237,
    2242, 2247, 2252, 2268, 2273, 2278, 2310, 2315, 2320, 2336, 2341, 2373, 2378, 2383, 2415, 2420,
    2425, 2430, 2445, 2461, 2466, 2471, 2476, 2508, 2513, 2518, 2523, 2555, 2560, 2565, 2570, 2575,
    2580, 2585, 2590, 2595, 2600, 2632, 2637, 2639, 2656, 2766, 0, 2779, 2659, 2691, 2696, 2701,
    2733, 2769, 2774, 2781, 2783, 0, 0, 0, 0, 0, 0, 0, 0, 0, 2845, 2848,
    2851, 2854, 2857, 2860, 2863, 2866, 0]

/-- `EepromPramLength`: the largest number of data bytes of an entry; 0 for a reserved one. -/
def eepromPramLength : List ℕ :=
  [0, 4, 4, 4, 4, 4, 4, 4, 0, 0, 0, 0, 0, 0, 0, 0,
    20, 20, 20, 20, 20, 20, 20, 20, 4, 4, 39, 4, 4, 39, 0, 0,
    4, 4, 4, 0, 0, 0, 0, 4, 4, 4, 0, 0, 4, 4, 4, 4,
    4, 2, 0, 0, 0, 0, 0, 0, 0, 0, 0, 0, 0, 0, 0, 0,
    20, 20, 20, 20, 20, 4, 4, 4, 20, 20, 0, 0, 0, 0, 0, 0,
    4, 4, 4, 4, 4, 4, 4, 4, 4, 4, 4, 2, 2, 2, 2, 0,
    0, 0, 0, 0, 4, 4, 0, 0, 0, 0, 0, 0, 0, 0, 0, 0,
    4, 4, 4, 4, 4, 0, 0, 0, 0, 0, 0, 0, 0, 0, 0, 0,
    4, 2, 2, 20, 1, 0, 0, 0, 0, 0, 0, 0, 0, 0, 0, 0,
    1, 1, 1, 4, 1, 4, 0, 0, 0, 0, 0, 0, 0, 0, 0, 0,
    0, 0, 0, 0, 0, 0, 0, 0, 0, 0, 0, 0, 0, 0, 0, 0,
    0, 0, 0, 0, 0, 0, 0, 0, 0, 0, 0, 0, 0, 0, 0, 0,
    0, 0, 0, 0, 0, 0, 0, 0, 0, 0, 0, 0, 0, 0, 0, 0,
    0, 0, 0, 0, 0, 0, 0, 0, 0, 0, 0, 0, 0, 0, 0, 0,
    0, 0, 0, 0, 0, 0, 0, 0, 0, 0, 0, 0, 0, 0, 0, 0,
    0, 0, 0, 0, 0, 0, 0, 0, 0, 0, 0, 0, 0, 0, 0, 0,
    4, 2, 4, 2, 0, 0, 0, 0, 0, 0, 0, 0, 0, 0, 0, 0,
    8, 8, 8, 8, 8, 8, 8, 8, 20, 20, 1, 4, 4, 5, 7, 6,
    20, 20, 3, 20, 5, 150, 1, 3, 1, 1, 1, 4, 4, 1, 20, 20,
    20, 20, 2, 2, 20, 20, 20, 100, 2, 20, 10, 20, 1, 6, 20, 4,
    4, 1, 7, 1, 4, 4, 1, 1, 1, 1, 1, 1, 1, 120, 4, 4,
    1, 4, 4, 4, 0, 0, 0, 0, 4, 4, 35, 4, 4, 4, 0, 0,
    0, 0, 4, 2, 1, 2, 1, 1, 4, 30, 4, 4, 4, 30, 4, 4,
    4, 4, 14, 4, 4, 30, 4, 4, 14, 4, 30, 4, 4, 30, 4, 4,
    4, 4, 14, 4, 4, 4, 30, 4, 4, 4, 30, 4, 4, 4, 4, 4,
    4, 4, 4, 4, 30, 4, 1, 10, 2, 2, 0, 1, 30, 4, 4, 20,
    20, 4, 4, 1, 1, 0, 0, 0, 0, 0, 0, 0, 0, 0, 2, 2,
    2, 2, 2, 2, 2, 16, 0]

/-- `EepromPramSwitch`: 1 for an entry stored as a string, with a leading length byte. -/
def eepromPramSwitch : List ℕ :=
  [0, 0, 0, 0, 0, 0, 0, 0, 0, 0, 0, 0, 0, 0, 0, 0,
    1, 1, 1, 1, 1, 1, 1, 1, 0, 0, 1, 0, 0, 1, 0, 0,
    0, 0, 0, 0, 0, 0, 0, 0, 0, 0, 0, 0, 0, 0, 0, 0,
    0, 0, 0, 0, 0, 0, 0, 0, 0, 0, 0, 0, 0, 0, 0, 0,
    1, 1, 1, 1, 1, 0, 0, 0, 1, 1, 0, 0, 0, 0, 0, 0,
    0, 0, 0, 0, 0, 0, 0, 0, 0, 0, 0, 0, 0, 0, 0, 0,
    0, 0, 0, 0, 0, 0, 0, 0, 0, 0, 0, 0, 0, 0, 0, 0,
    0, 0, 0, 0, 0, 0, 0, 0, 0, 0, 0, 0, 0, 0, 0, 0,
    0, 0, 0, 1, 0, 0, 0, 0, 0, 0, 0, 0, 0, 0, 0, 0,
    0, 0, 0, 0, 0, 0, 0, 0, 0, 0, 0, 0, 0, 0, 0, 0,
    0, 0, 0, 0, 0, 0, 0, 0, 0, 0, 0, 0, 0, 0, 0, 0,
    0, 0, 0, 0, 0, 0, 0, 0, 0, 0, 0, 0, 0, 0, 0, 0,
    0, 0, 0, 0, 0, 0, 0, 0, 0, 0, 0, 0, 0, 0, 0, 0,
    0, 0, 0, 0, 0, 0, 0, 0, 0, 0, 0, 0, 0, 0, 0, 0,
    0, 0, 0, 0, 0, 0, 0, 0, 0, 0, 0, 0, 0, 0, 0, 0,
    0, 0, 0, 0, 0, 0, 0, 0, 0, 0, 0, 0, 0, 0, 0, 0,
    0, 0, 0, 0, 0, 0, 0, 0, 0, 0, 0, 0, 0, 0, 0, 0,
    1, 1, 1, 1, 1, 1, 1, 1, 1, 1, 0, 0, 0, 1, 1, 1,
    1, 1, 1, 1, 1, 1, 0, 1, 0, 0, 0, 0, 0, 0, 1, 1,
    1, 1, 0, 0, 1, 1, 1, 1, 0, 1, 1, 1, 0, 1, 1, 0,
    0, 0, 1, 0, 0, 0, 0, 0, 0, 0, 0, 0, 0, 1, 0, 0,
    0, 0, 0, 0, 0, 0, 0, 0, 0, 0, 1, 0, 0, 0, 0, 0,
    0, 0, 0, 0, 0, 0, 0, 0, 0, 1, 0, 0, 0, 1, 0, 0,
    0, 0, 1, 0, 0, 1, 0, 0, 1, 0, 1, 0, 0, 1, 0, 0,
    0, 0, 1, 0, 0, 0, 1, 0, 0, 0, 1, 0, 0, 0, 0, 0,
    0, 0, 0, 0, 1, 0, 0, 1, 0, 0, 0, 0, 1, 0, 0, 1,
    1, 0, 0, 0, 0, 0, 0, 0, 0, 0, 0, 0, 0, 0, 0, 0,
    0, 0, 0, 0, 0, 1, 0]

/-- The table entry of a parameter ID, which the call truncates to 16 bits; 0 for none. -/
def e2ParamAppConvertPramIDToGroupIndex (pramID : ℕ) : ℕ :=
  let pramID := pramID % 65536
  if pramID < e2SystemDefineIdMax then pramID % 0x1000
  else if pramID ≥ e2PramBaseCustomId then
    (pramID - e2PramBaseCustomId + e2SystemDefineIdMax) % 0x1000
  else 0

end VehicleTerminal.EepromPram
