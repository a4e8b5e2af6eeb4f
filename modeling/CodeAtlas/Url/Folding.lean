/-!
# Folding of host names

Host names are compared after compatibility folding: letters lose their size, style and enclosure,
and capital letters become small. The tables list the characters beyond ASCII that fold to ASCII; a
blank stands for a folding that no host can hold.
-/
namespace CodeAtlas.Url

/-- Runs of characters that fold to consecutive ASCII characters: the first, their number, and the
first folding. -/
def foldingRuns : List (Nat × Nat × Char) :=
  [(0xA0, 1, ' '), (0xA8, 1, ' '), (0xAA, 1, 'a'), (0xAF, 1, ' '), (0xB2, 2, '2'), (0xB4, 1, ' '),
    (0xB8, 1, ' '), (0xB9, 1, '1'), (0xBA, 1, 'o'), (0x17F, 1, 's'), (0x2B0, 1, 'h'),
    (0x2B2, 1, 'j'), (0x2B3, 1, 'r'), (0x2B7, 1, 'w'), (0x2B8, 1, 'y'), (0x2E1, 1, 'l'),
    (0x2E2, 1, 's'), (0x2E3, 1, 'x'), (0x37A, 1, ' '), (0x37E, 1, ';'), (0x1D2C, 1, 'a'),
    (0x1D2E, 1, 'b'), (0x1D30, 2, 'd'), (0x1D33, 8, 'g'), (0x1D3C, 1, 'o'), (0x1D3E, 1, 'p'),
    (0x1D3F, 1, 'r'), (0x1D40, 2, 't'), (0x1D42, 1, 'w'), (0x1D43, 1, 'a'), (0x1D47, 1, 'b'),
    (0x1D48, 2, 'd'), (0x1D4D, 1, 'g'), (0x1D4F, 1, 'k'), (0x1D50, 1, 'm'), (0x1D52, 1, 'o'),
    (0x1D56, 1, 'p'), (0x1D57, 2, 't'), (0x1D5B, 1, 'v'), (0x1D62, 1, 'i'), (0x1D63, 1, 'r'),
    (0x1D64, 2, 'u'), (0x1D9C, 1, 'c'), (0x1DA0, 1, 'f'), (0x1DBB, 1, 'z'), (0x1FBD, 1, ' '),
    (0x1FEF, 1, '\x60'), (0x2017, 1, ' '), (0x202F, 1, ' '), (0x203E, 1, ' '), (0x205F, 1, ' '),
    (0x2070, 1, '0'), (0x2071, 1, 'i'), (0x2074, 6, '4'), (0x207A, 1, '+'), (0x207C, 1, '='),
    (0x207D, 2, '('), (0x207F, 1, 'n'), (0x2080, 10, '0'), (0x208A, 1, '+'), (0x208C, 1, '='),
    (0x208D, 2, '('), (0x2090, 1, 'a'), (0x2091, 1, 'e'), (0x2092, 1, 'o'), (0x2093, 1, 'x'),
    (0x2095, 1, 'h'), (0x2096, 4, 'k'), (0x209A, 1, 'p'), (0x209B, 2, 's'), (0x2102, 1, 'c'),
    (0x210A, 2, 'g'), (0x2115, 1, 'n'), (0x2119, 3, 'p'), (0x2124, 1, 'z'), (0x2128, 1, 'z'),
    (0x212A, 1, 'k'), (0x212C, 2, 'b'), (0x2131, 1, 'f'), (0x2133, 1, 'm'), (0x2134, 1, 'o'),
    (0x2139, 1, 'i'), (0x2147, 1, 'e'), (0x2148, 2, 'i'), (0x2160, 1, 'i'), (0x2164, 1, 'v'),
    (0x2169, 1, 'x'), (0x216C, 1, 'l'), (0x216D, 2, 'c'), (0x216F, 1, 'm'), (0x2170, 1, 'i'),
    (0x2174, 1, 'v'), (0x2179, 1, 'x'), (0x217C, 1, 'l'), (0x217D, 2, 'c'), (0x217F, 1, 'm'),
    (0x2460, 9, '1'), (0x24B6, 26, 'a'), (0x24D0, 26, 'a'), (0x24EA, 1, '0'), (0x2A74, 1, ' '),
    (0x2C7C, 1, 'j'), (0x2C7D, 1, 'v'), (0x3000, 1, ' '), (0x3002, 1, '.'), (0x33C2, 1, ' '),
    (0x33C7, 1, ' '), (0x33D8, 1, ' '), (0xA7F2, 1, 'c'), (0xA7F3, 1, 'f'), (0xA7F4, 1, 'q'),
    (0xFB29, 1, '+'), (0xFE10, 1, ','), (0xFE13, 1, ' '), (0xFE14, 1, ';'), (0xFE15, 1, '!'),
    (0xFE16, 1, ' '), (0xFE19, 1, ' '), (0xFE30, 1, ' '), (0xFE35, 2, '('), (0xFE37, 1, '{'),
    (0xFE38, 1, '}'), (0xFE50, 1, ','), (0xFE52, 1, ' '), (0xFE54, 1, ';'), (0xFE57, 1, '!'),
    (0xFE59, 2, '('), (0xFE5B, 1, '{'), (0xFE5C, 1, '}'), (0xFE5F, 1, ' '), (0xFE60, 1, '&'),
    (0xFE61, 2, '*'), (0xFE63, 1, '-'), (0xFE66, 1, '='), (0xFE68, 1, ' '), (0xFE69, 1, '$'),
    (0xFE70, 1, ' '), (0xFE72, 1, ' '), (0xFE74, 1, ' '), (0xFE76, 1, ' '), (0xFE78, 1, ' '),
    (0xFE7A, 1, ' '), (0xFE7C, 1, ' '), (0xFE7E, 1, ' '), (0xFF01, 2, '!'), (0xFF03, 1, ' '),
    (0xFF04, 1, '$'), (0xFF05, 1, ' '), (0xFF06, 9, '&'), (0xFF0F, 1, ' '), (0xFF10, 10, '0'),
    (0xFF1A, 1, ' '), (0xFF1B, 1, ';'), (0xFF1C, 1, ' '), (0xFF1D, 1, '='), (0xFF21, 26, 'a'),
    (0xFF3F, 29, '_'), (0xFF5C, 1, ' '), (0xFF5D, 2, '}'), (0xFF61, 1, '.'), (0xFFE3, 1, ' '),
    (0x107A5, 1, 'q'), (0x1D400, 26, 'a'), (0x1D41A, 26, 'a'), (0x1D434, 26, 'a'),
    (0x1D44E, 7, 'a'), (0x1D456, 18, 'i'), (0x1D468, 26, 'a'), (0x1D482, 26, 'a'),
    (0x1D49C, 1, 'a'), (0x1D49E, 2, 'c'), (0x1D4A2, 1, 'g'), (0x1D4A5, 2, 'j'), (0x1D4A9, 4, 'n'),
    (0x1D4AE, 8, 's'), (0x1D4B6, 4, 'a'), (0x1D4BB, 1, 'f'), (0x1D4BD, 7, 'h'), (0x1D4C5, 11, 'p'),
    (0x1D4D0, 26, 'a'), (0x1D4EA, 26, 'a'), (0x1D504, 2, 'a'), (0x1D507, 4, 'd'),
    (0x1D50D, 8, 'j'), (0x1D516, 7, 's'), (0x1D51E, 26, 'a'), (0x1D538, 2, 'a'), (0x1D53B, 4, 'd'),
    (0x1D540, 5, 'i'), (0x1D546, 1, 'o'), (0x1D54A, 7, 's'), (0x1D552, 26, 'a'),
    (0x1D56C, 26, 'a'), (0x1D586, 26, 'a'), (0x1D5A0, 26, 'a'), (0x1D5BA, 26, 'a'),
    (0x1D5D4, 26, 'a'), (0x1D5EE, 26, 'a'), (0x1D608, 26, 'a'), (0x1D622, 26, 'a'),
    (0x1D63C, 26, 'a'), (0x1D656, 26, 'a'), (0x1D670, 26, 'a'), (0x1D68A, 26, 'a'),
    (0x1D7CE, 10, '0'), (0x1D7D8, 10, '0'), (0x1D7E2, 10, '0'), (0x1D7EC, 10, '0'),
    (0x1D7F6, 10, '0'), (0x1F100, 1, ' '), (0x1F12B, 1, 'c'), (0x1F12C, 1, 'r'),
    (0x1F130, 26, 'a'), (0x1FBF0, 10, '0')]

def constantRuns : List (Nat × Nat × Char) :=
  [(0x2D8, 6, ' '), (0x384, 2, ' '), (0x1FBF, 3, ' '), (0x1FCD, 3, ' '), (0x1FDD, 3, ' '),
    (0x1FED, 2, ' '), (0x1FFD, 2, ' '), (0x2000, 11, ' '), (0x2024, 3, ' '), (0x2047, 3, ' '),
    (0x2100, 2, ' '), (0x2105, 2, ' '), (0x210C, 3, 'h'), (0x2110, 2, 'i'), (0x2112, 2, 'l'),
    (0x211C, 2, 'r'), (0x212F, 2, 'e'), (0x2145, 2, 'd'), (0x2488, 20, ' '), (0x309B, 2, ' '),
    (0xFC5E, 6, ' '), (0xFDFA, 2, ' '), (0xFE33, 2, '_'), (0xFE47, 6, ' '), (0xFE4D, 3, '_'),
    (0xFE55, 2, ' '), (0xFE64, 2, ' '), (0xFE6A, 2, ' '), (0xFF1E, 3, ' '), (0xFF3B, 4, ' ')]

def longFoldings : List (Nat × String) :=
  [(0x132, "ij"), (0x133, "ij"), (0x1C7, "lj"), (0x1C8, "lj"), (0x1C9, "lj"), (0x1CA, "nj"),
    (0x1CB, "nj"), (0x1CC, "nj"), (0x1F1, "dz"), (0x1F2, "dz"), (0x1F3, "dz"), (0x1E9E, "ss"),
    (0x203C, "!!"), (0x20A8, "rs"), (0x2116, "no"), (0x2120, "sm"), (0x2121, "tel"),
    (0x2122, "tm"), (0x213B, "fax"), (0x2161, "ii"), (0x2162, "iii"), (0x2163, "iv"),
    (0x2165, "vi"), (0x2166, "vii"), (0x2167, "viii"), (0x2168, "ix"), (0x216A, "xi"),
    (0x216B, "xii"), (0x2171, "ii"), (0x2172, "iii"), (0x2173, "iv"), (0x2175, "vi"),
    (0x2176, "vii"), (0x2177, "viii"), (0x2178, "ix"), (0x217A, "xi"), (0x217B, "xii"),
    (0x2469, "10"), (0x246A, "11"), (0x246B, "12"), (0x246C, "13"), (0x246D, "14"), (0x246E, "15"),
    (0x246F, "16"), (0x2470, "17"), (0x2471, "18"), (0x2472, "19"), (0x2473, "20"),
    (0x2474, "(1)"), (0x2475, "(2)"), (0x2476, "(3)"), (0x2477, "(4)"), (0x2478, "(5)"),
    (0x2479, "(6)"), (0x247A, "(7)"), (0x247B, "(8)"), (0x247C, "(9)"), (0x247D, "(10)"),
    (0x247E, "(11)"), (0x247F, "(12)"), (0x2480, "(13)"), (0x2481, "(14)"), (0x2482, "(15)"),
    (0x2483, "(16)"), (0x2484, "(17)"), (0x2485, "(18)"), (0x2486, "(19)"), (0x2487, "(20)"),
    (0x249C, "(a)"), (0x249D, "(b)"), (0x249E, "(c)"), (0x249F, "(d)"), (0x24A0, "(e)"),
    (0x24A1, "(f)"), (0x24A2, "(g)"), (0x24A3, "(h)"), (0x24A4, "(i)"), (0x24A5, "(j)"),
    (0x24A6, "(k)"), (0x24A7, "(l)"), (0x24A8, "(m)"), (0x24A9, "(n)"), (0x24AA, "(o)"),
    (0x24AB, "(p)"), (0x24AC, "(q)"), (0x24AD, "(r)"), (0x24AE, "(s)"), (0x24AF, "(t)"),
    (0x24B0, "(u)"), (0x24B1, "(v)"), (0x24B2, "(w)"), (0x24B3, "(x)"), (0x24B4, "(y)"),
    (0x24B5, "(z)"), (0x2A75, "=="), (0x2A76, "==="), (0x3250, "pte"), (0x3251, "21"),
    (0x3252, "22"), (0x3253, "23"), (0x3254, "24"), (0x3255, "25"), (0x3256, "26"), (0x3257, "27"),
    (0x3258, "28"), (0x3259, "29"), (0x325A, "30"), (0x325B, "31"), (0x325C, "32"), (0x325D, "33"),
    (0x325E, "34"), (0x325F, "35"), (0x32B1, "36"), (0x32B2, "37"), (0x32B3, "38"), (0x32B4, "39"),
    (0x32B5, "40"), (0x32B6, "41"), (0x32B7, "42"), (0x32B8, "43"), (0x32B9, "44"), (0x32BA, "45"),
    (0x32BB, "46"), (0x32BC, "47"), (0x32BD, "48"), (0x32BE, "49"), (0x32BF, "50"), (0x32CC, "hg"),
    (0x32CD, "erg"), (0x32CE, "ev"), (0x32CF, "ltd"), (0x3371, "hpa"), (0x3372, "da"),
    (0x3373, "au"), (0x3374, "bar"), (0x3375, "ov"), (0x3376, "pc"), (0x3377, "dm"),
    (0x3378, "dm2"), (0x3379, "dm3"), (0x337A, "iu"), (0x3380, "pa"), (0x3381, "na"),
    (0x3383, "ma"), (0x3384, "ka"), (0x3385, "kb"), (0x3386, "mb"), (0x3387, "gb"),
    (0x3388, "cal"), (0x3389, "kcal"), (0x338A, "pf"), (0x338B, "nf"), (0x338E, "mg"),
    (0x338F, "kg"), (0x3390, "hz"), (0x3391, "khz"), (0x3392, "mhz"), (0x3393, "ghz"),
    (0x3394, "thz"), (0x3396, "ml"), (0x3397, "dl"), (0x3398, "kl"), (0x3399, "fm"),
    (0x339A, "nm"), (0x339C, "mm"), (0x339D, "cm"), (0x339E, "km"), (0x339F, "mm2"),
    (0x33A0, "cm2"), (0x33A1, "m2"), (0x33A2, "km2"), (0x33A3, "mm3"), (0x33A4, "cm3"),
    (0x33A5, "m3"), (0x33A6, "km3"), (0x33A9, "pa"), (0x33AA, "kpa"), (0x33AB, "mpa"),
    (0x33AC, "gpa"), (0x33AD, "rad"), (0x33B0, "ps"), (0x33B1, "ns"), (0x33B3, "ms"),
    (0x33B4, "pv"), (0x33B5, "nv"), (0x33B7, "mv"), (0x33B8, "kv"), (0x33B9, "mv"), (0x33BA, "pw"),
    (0x33BB, "nw"), (0x33BD, "mw"), (0x33BE, "kw"), (0x33BF, "mw"), (0x33C3, "bq"), (0x33C4, "cc"),
    (0x33C5, "cd"), (0x33C8, "db"), (0x33C9, "gy"), (0x33CA, "ha"), (0x33CB, "hp"), (0x33CC, "in"),
    (0x33CD, "kk"), (0x33CE, "km"), (0x33CF, "kt"), (0x33D0, "lm"), (0x33D1, "ln"),
    (0x33D2, "log"), (0x33D3, "lx"), (0x33D4, "mb"), (0x33D5, "mil"), (0x33D6, "mol"),
    (0x33D7, "ph"), (0x33D9, "ppm"), (0x33DA, "pr"), (0x33DB, "sr"), (0x33DC, "sv"),
    (0x33DD, "wb"), (0x33FF, "gal"), (0xFB00, "ff"), (0xFB01, "fi"), (0xFB02, "fl"),
    (0xFB03, "ffi"), (0xFB04, "ffl"), (0xFB05, "st"), (0xFB06, "st"), (0x1F101, "0,"),
    (0x1F102, "1,"), (0x1F103, "2,"), (0x1F104, "3,"), (0x1F105, "4,"), (0x1F106, "5,"),
    (0x1F107, "6,"), (0x1F108, "7,"), (0x1F109, "8,"), (0x1F10A, "9,"), (0x1F110, "(a)"),
    (0x1F111, "(b)"), (0x1F112, "(c)"), (0x1F113, "(d)"), (0x1F114, "(e)"), (0x1F115, "(f)"),
    (0x1F116, "(g)"), (0x1F117, "(h)"), (0x1F118, "(i)"), (0x1F119, "(j)"), (0x1F11A, "(k)"),
    (0x1F11B, "(l)"), (0x1F11C, "(m)"), (0x1F11D, "(n)"), (0x1F11E, "(o)"), (0x1F11F, "(p)"),
    (0x1F120, "(q)"), (0x1F121, "(r)"), (0x1F122, "(s)"), (0x1F123, "(t)"), (0x1F124, "(u)"),
    (0x1F125, "(v)"), (0x1F126, "(w)"), (0x1F127, "(x)"), (0x1F128, "(y)"), (0x1F129, "(z)"),
    (0x1F12D, "cd"), (0x1F12E, "wz"), (0x1F14A, "hv"), (0x1F14B, "mv"), (0x1F14C, "sd"),
    (0x1F14D, "ss"), (0x1F14E, "ppv"), (0x1F14F, "wc"), (0x1F16A, "mc"), (0x1F16B, "md"),
    (0x1F16C, "mr"), (0x1F190, "dj")]

def droppedRuns : List (Nat × Nat) :=
  [(0xAD, 0xAD), (0x34F, 0x34F), (0x180B, 0x180D), (0x180F, 0x180F), (0x200B, 0x200B),
    (0x2060, 0x2060), (0x2064, 0x2064), (0xFE00, 0xFE0F), (0xFEFF, 0xFEFF), (0x1BCA0, 0x1BCA3),
    (0xE0100, 0xE01EF)]

def barredRuns : List (Nat × Nat) :=
  [(0x80, 0x9F), (0x61C, 0x61C), (0x180E, 0x180E), (0x200C, 0x200F), (0x2028, 0x202E),
    (0x2061, 0x2063), (0x2065, 0x206F), (0xE000, 0xF8FF), (0xFDD0, 0xFDEF), (0xFFF9, 0xFFFF),
    (0x1D173, 0x1D17A), (0xE0000, 0xE00FF), (0xE01F0, 0x10FFFF)]

def isWithin (runs : List (Nat × Nat)) (c : Char) : Bool :=
  runs.any fun (first, last) => first ≤ c.toNat && c.toNat ≤ last

def isAmong (c : Char) (first count : Nat) : Bool := first ≤ c.toNat && c.toNat < first + count

def foldWide (c : Char) : List Char :=
  if isWithin droppedRuns c then []
  else if isWithin barredRuns c then [' ']
  else
    match foldingRuns.find? fun (first, count, _) => isAmong c first count with
    | some (first, _, target) => [Char.ofNat (target.toNat + (c.toNat - first))]
    | none =>
      match constantRuns.find? fun (first, count, _) => isAmong c first count with
      | some (_, _, target) => [target]
      | none =>
        match longFoldings.find? fun (n, _) => n == c.toNat with
        | some (_, text) => text.toList
        | none => [c]

def fold (c : Char) : List Char := if c.toNat < 0x80 then [c.toLower] else foldWide c

end CodeAtlas.Url
