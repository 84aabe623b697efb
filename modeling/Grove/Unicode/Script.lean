import Grove.Unicode.CharSet

/-!
# Scripts

The characters of each script of the Unicode character database, version 15, written
as runs (see `CharSet.ofRuns`), under the script's long name and its four-letter code.
-/

namespace Grove.Unicode.Script

def adlam : CharSet := CharSet.ofRuns [
  "2olc-23 4-9 4-1"]

def ahom : CharSet := CharSet.ofRuns [
  "1j40-q 2-e 4-m"]

def anatolianHieroglyphs : CharSet := CharSet.ofRuns [
  "1s00-g6"]

def arabic : CharSet := CharSet.ofRuns [
  "16o-4 1-5 1-d 1-2 1-v 1-9 b-p 1-2z 1-x 28-1b 6o-u 1-1 6-21 1-s 1bv4-36 g-a2 2-27 2-1h 7 w-f",
  "34-4 1-3q 31f-u 3i-2 181s-3 1-q 1-1 1 2 1-9 1-3 1 1 6 4 1 1 1-2 1-1 1 2 1 1 1 1 1-1 1 2-3",
  "1-6 1-3 1-3 1 1-9 1-g 5-2 1-4 1-g 1g-1"]

def armenian : CharSet := CharSet.ofRuns [
  "10x-11 2-1d 2-2 1chv-4"]

def avestan : CharSet := CharSet.ofRuns [
  "1gqo-1h 3-6"]

def balinese : CharSet := CharSet.ofRuns [
  "5c0-24 3-1a"]

def bamum : CharSet := CharSet.ofRuns [
  "www-2f 124o-fs"]

def bassaVah : CharSet := CharSet.ofRuns [
  "1zo0-t 2-5"]

def batak : CharSet := CharSet.ofRuns [
  "5hc-1f 8-3"]

def bengali : CharSet := CharSet.ofRuns [
  "1vk-3 1-7 2-1 2-l 1-6 1 3-3 2-8 2-1 2-3 8 4-1 1-4 2-o"]

def bhaiksuki : CharSet := CharSet.ofRuns [
  "1k3k-8 1-18 1-d a-s"]

def bopomofo : CharSet := CharSet.ofRuns [
  "kq-1 93t-16 34-v"]

def brahmi : CharSet := CharSet.ofRuns [
  "1hq8-25 4-z 9"]

def braille : CharSet := CharSet.ofRuns [
  "7wg-73"]

def buginese : CharSet := CharSet.ofRuns [
  "54w-r 2-1"]

def buhid : CharSet := CharSet.ofRuns [
  "4lc-j"]

def canadianAboriginal : CharSet := CharSet.ofRuns [
  "3y8-hr fk-1x 1ewq-f"]

def carian : CharSet := CharSet.ofRuns [
  "1f34-1c"]

def caucasianAlbanian : CharSet := CharSet.ofRuns [
  "1flc-1f b"]

def chakma : CharSet := CharSet.ofRuns [
  "1hxc-1g 1-h"]

def cham : CharSet := CharSet.ofRuns [
  "xkw-1i 9-d 2-9 2-3"]

def cherokee : CharSet := CharSet.ofRuns [
  "3vk-2d 2-5 twy-27"]

def chorasmian : CharSet := CharSet.ofRuns [
  "1ho0-r"]

def common : CharSet := CharSet.ofRuns [
  "0-1s q-5 q-1a 1-e 1-4 n v ch-12 5-4 2-j 38 9 6 1 hp 6 e 3 w 4c ec 3l-1 yh b9-3 82 167-2 1z-1",
  "5n-1 1 y5 d 7-3 1-5 1-2 2 lh-b 2-2e 1-a 3-a 1-e h-w 1r-11 1-2 2-5 1-q 1-g 15-2 4-ie p-a l-pr",
  "74-hf 2-v 1-2w e8-2l b6-b 4-4 1 1-o f-7 4-3 2j-1 3 2i-1 43-f w-z 1o-1r v-28 1b 2g-4n 534-1r",
  "hkw-x 2u-2 4l-9 6s 4g az e-1 g5u-1 5s-9 m-y 1-i 1-3 43 1-v q-5 q-a a 19-1 1s-6 1-6 a-4 76-2",
  "4-18 3-8 28-c 1f-18 6c-q 10o4-3 3os-37 1o-6t a-12 2-1p 3-g 8-1 7-t 4-1o 5x-j c-j c-2e 9-o",
  "3r-2c 1-1y 1-1 2 2-1 2-3 1-b 1 1-6 1-1s 1-3 2-7 1-6 1-r 1-3 1-4 1 3-6 1-9f 2-83 2-1d 41d-1v",
  "24-1o jm-17 4-2r c-e 2-e 1-e 1-10 a-4t 1k-p 1-1 d-17 4-8 7-1 e-5 4a-rb 4-g 3-c 3-3a 4-2m 6-b",
  "4 f-b 4-1j 8-9 6-13 8-t 2-1 26-9f c-d 2-c 3-8 7-19 1-6 8-d 4-8 7-8 7-42 1-1i 11-9 gvlz u-2n"]

def coptic : CharSet := CharSet.ofRuns [
  "rm-d 80g-37 5-6"]

def cuneiform : CharSet := CharSet.ofRuns [
  "1kw0-pl 2u-32 1-4 b-5f"]

def cypriot : CharSet := CharSet.ofRuns [
  "1g5c-5 2 1-17 1-1 3 2"]

def cyproMinoan : CharSet := CharSet.ofRuns [
  "1nyo-2q"]

def cyrillic : CharSet := CharSet.ofRuns [
  "sg-3o 2-4o 4ls-8 4i 24 38n-v nr4-2n ham-1 18n4-1p x"]

def deseret : CharSet := CharSet.ofRuns [
  "1fcw-27"]

def devanagari : CharSet := CharSet.ofRuns [
  "1s0-28 4-e 2-p vhc-v mio-9"]

def divesAkuru : CharSet := CharSet.ofRuns [
  "1ji8-6 2 2-7 1-1 1-t 1-1 2-b 9-9"]

def dogra : CharSet := CharSet.ofRuns [
  "1jb4-1n"]

def duployan : CharSet := CharSet.ofRuns [
  "2fpc-2y 5-c 3-8 7-9 2-3"]

def egyptianHieroglyphs : CharSet := CharSet.ofRuns [
  "1o1s-ut"]

def elbasan : CharSet := CharSet.ofRuns [
  "1fk0-13"]

def elymaic : CharSet := CharSet.ofRuns [
  "1hpc-m"]

def ethiopic : CharSet := CharSet.ofRuns [
  "3k0-20 1-3 2-6 1 1-3 2-14 1-3 2-w 1-3 2-6 1 1-3 2-e 1-1k 1-3 2-1u 2-v 3-p 546-m 9-6 1-6 1-6",
  "1-6 1-6 1-6 1-6 1-6 opu-5 2-5 2-5 9-6 1-6 1qk1-6 1-3 1-1 1-e"]

def georgian : CharSet := CharSet.ofRuns [
  "3a8-11 1 5 2-16 1-3 2a8-16 2-2 37k-11 1 5"]

def glagolitic : CharSet := CharSet.ofRuns [
  "8ow-2n 2e1s-6 1-g 2-6 1-1 1-4"]

def gothic : CharSet := CharSet.ofRuns [
  "1f74-q"]

def grantha : CharSet := CharSet.ofRuns [
  "1ibk-3 1-7 2-1 2-l 1-6 1-1 1-4 2-8 2-1 2-2 2 6 5-6 2-6 3-4"]

def greek : CharSet := CharSet.ofRuns [
  "og-3 1-2 2-3 1 4 1 1-2 1 1-j 1-1q e-f 4yu-4 1e-4 4-4 2c 8w-l 2-5 2-11 2-5 2-7 1 1 1 1-u 2-1g",
  "1-e 1-d 2-5 1-i 2-2 1-8 87 rb2 gyi-26 h 155r-1x"]

def gujarati : CharSet := CharSet.ofRuns [
  "22p-2 1-8 1-2 1-l 1-6 1-1 1-4 2-9 1-2 1-2 2 f-3 2-b 7-6"]

def gunjalaGondi : CharSet := CharSet.ofRuns [
  "1kdc-5 1-1 1-10 1-1 1-5 7-9"]

def gurmukhi : CharSet := CharSet.ofRuns [
  "1z5-2 1-5 4-1 2-l 1-6 1-1 1-1 1-1 2 1-4 4-1 2-2 3 7-3 1 7-g"]

def han : CharSet := CharSet.ofRuns [
  "96o-p 1-2g c-5x 1b 1 p-8 e-3 qs-533 1s-g73 hkw-a5 2-2x n48-1 c-1 sge-wyn w-37d 6-65 2-4g1",
  "e-5rk 2e7-f1 15u-3t6 5-38f"]

def hangul : CharSet := CharSet.ofRuns [
  "3cw-73 5ym-1 75-2l 35-u 1t-u nhd-s hv-8mb c-m 4-1c 7tw-u 3-5 2-5 2-5 2-2"]

def hanifiRohingya : CharSet := CharSet.ofRuns [
  "1h4w-13 8-9"]

def hanunoo : CharSet := CharSet.ofRuns [
  "4kg-k"]

def hatran : CharSet := CharSet.ofRuns [
  "1gbk-i 1-1 5-4"]

def hebrew : CharSet := CharSet.ofRuns [
  "13l-1i 8-q 4-5 1cfc-p 1-4 1 1-1 1-1 1-9"]

def hiragana : CharSet := CharSet.ofRuns [
  "9j5-2d 6-2 23q9-7y i t-2 crx"]

def imperialAramaic : CharSet := CharSet.ofRuns [
  "1g74-l 1-8"]

def inherited : CharSet := CharSet.ofRuns [
  "lc-33 7p-1 ck-a q kg-3 3ff-u e9-2 1-c 1-6 4 6 3-1 5i-1r ek-1 5e-w 309-3 2z-1 14kl-f g-d r3",
  "6a 38a 1138-19 2-m f4-2 h-7 2-6 u-3 h45u-6n"]

def inscriptionalPahlavi : CharSet := CharSet.ofRuns [
  "1gtc-i 5-7"]

def inscriptionalParthian : CharSet := CharSet.ofRuns [
  "1gsg-l 2-7"]

def javanese : CharSet := CharSet.ofRuns [
  "xhc-25 2-9 4-1"]

def kaithi : CharSet := CharSet.ofRuns [
  "1hts-1u a"]

def kannada : CharSet := CharSet.ofRuns [
  "2gw-c 1-2 1-m 1-9 1-4 2-8 1-2 1-3 7-1 6-1 1-3 2-9 1-2"]

def katakana : CharSet := CharSet.ofRuns [
  "9lt-2h 2-2 6o-f 5s-1a 1-2f 14b2-9 1-18 ytu-3 1-6 1-1 1 7z-2 1e e-3"]

def kawi : CharSet := CharSet.ofRuns [
  "1kow-g 1-14 3-r"]

def kayahLi : CharSet := CharSet.ofRuns [
  "xds-19 1"]

def kharoshthi : CharSet := CharSet.ofRuns [
  "1gjk-3 1-1 5-7 1-2 1-s 2-2 4-9 7-8"]

def khitanSmallScript : CharSet := CharSet.ofRuns [
  "20o4 5cr-d1"]

def khmer : CharSet := CharSet.ofRuns [
  "4n4-2l 2-9 6-9 di-v"]

def khojki : CharSet := CharSet.ofRuns [
  "1i4g-h 1-1a"]

def khudawadi : CharSet := CharSet.ofRuns [
  "1i9c-1m 5-9"]

def lao : CharSet := CharSet.ofRuns [
  "2v5-1 1 1-4 1-n 1 1-m 2-4 1 1-6 1-9 2-3"]

def latin : CharSet := CharSet.ofRuns [
  "1t-p 6-p 1b f 5-m 1-u 1-cg 13-4 55n-11 6-1c 5-3 5-c 1-1x 1t-73 a9 d g-c 3x-1 6 r h-14 253-v",
  "o82-2t 3-1r 5-1 1 1-4 o-d mo-16 1-8 1-3 fpy-6 t6-p 6-p 1lx-5 1-15 1-8 16it-u 6-5"]

def lepcha : CharSet := CharSet.ofRuns [
  "5j4-1j 3-e 3-2"]

def limbu : CharSet := CharSet.ofRuns [
  "4xs-u 1-b 4-b 4 3-b"]

def linearA : CharSet := CharSet.ofRuns [
  "1fr4-8m 9-l a-7"]

def linearB : CharSet := CharSet.ofRuns [
  "1ekg-b 1-p 1-i 1-1 1-e 2-d y-3e"]

def lisu : CharSet := CharSet.ofRuns [
  "wk0-1b o8g"]

def lycian : CharSet := CharSet.ofRuns [
  "1f28-s"]

def lydian : CharSet := CharSet.ofRuns [
  "1gdc-p 5"]

def mahajani : CharSet := CharSet.ofRuns [
  "1hzk-12"]

def makasar : CharSet := CharSet.ofRuns [
  "1ko0-o"]

def malayalam : CharSet := CharSet.ofRuns [
  "2kg-c 1-2 1-1e 1-2 1-5 4-f 2-p"]

def mandaic : CharSet := CharSet.ofRuns [
  "1mo-r 2"]

def manichaean : CharSet := CharSet.ofRuns [
  "1gow-12 4-b"]

def marchen : CharSet := CharSet.ofRuns [
  "1k6o-v 2-l 1-d"]

def masaramGondi : CharSet := CharSet.ofRuns [
  "1kao-6 1-1 1-17 3 1-1 1-8 8-9"]

def medefaidrin : CharSet := CharSet.ofRuns [
  "20cg-2i"]

def meeteiMayek : CharSet := CharSet.ofRuns [
  "xr4-m 5l-19 2-9"]

def mendeKikakui : CharSet := CharSet.ofRuns [
  "2oe8-5g 2-f"]

def meroiticCursive : CharSet := CharSet.ofRuns [
  "1ggw-n 4-j 2-19"]

def meroiticHieroglyphs : CharSet := CharSet.ofRuns [
  "1gg0-v"]

def miao : CharSet := CharSet.ofRuns [
  "20hs-22 4-1k 7-g"]

def modi : CharSet := CharSet.ofRuns [
  "1iww-1w b-9"]

def mongolian : CharSet := CharSet.ofRuns [
  "4qo-1 2 1-j 6-2g 7-16 1e45-c"]

def mro : CharSet := CharSet.ofRuns [
  "1zk0-u 1-9 4-1"]

def multani : CharSet := CharSet.ofRuns [
  "1i80-6 1 1-3 1-e 1-a"]

def myanmar : CharSet := CharSet.ofRuns [
  "35s-4f u9s-u 2p-v"]

def nabataean : CharSet := CharSet.ofRuns [
  "1g8w-u 8-8"]

def nagMundari : CharSet := CharSet.ofRuns [
  "2nrk-15"]

def nandinagari : CharSet := CharSet.ofRuns [
  "1jmo-7 2-19 2-a"]

def newTaiLue : CharSet := CharSet.ofRuns [
  "51c-17 4-p 6-a 3-1"]

def newa : CharSet := CharSet.ofRuns [
  "1iio-2j 1-4"]

def nko : CharSet := CharSet.ofRuns [
  "1j4-1m 2-2"]

def nushu : CharSet := CharSet.ofRuns [
  "20o1 cy6-az"]

def nyiakengPuachueHmong : CharSet := CharSet.ofRuns [
  "2n0g-18 3-d 2-9 4-1"]

def ogham : CharSet := CharSet.ofRuns [
  "4g0-s"]

def olChiki : CharSet := CharSet.ofRuns [
  "5lc-1b"]

def oldHungarian : CharSet := CharSet.ofRuns [
  "1h1c-1e d-1e 7-5"]

def oldItalic : CharSet := CharSet.ofRuns [
  "1f5s-z 9-2"]

def oldNorthArabian : CharSet := CharSet.ofRuns [
  "1gn4-v"]

def oldPermic : CharSet := CharSet.ofRuns [
  "1f80-16"]

def oldPersian : CharSet := CharSet.ofRuns [
  "1fa8-z 4-d"]

def oldSogdian : CharSet := CharSet.ofRuns [
  "1hj4-13"]

def oldSouthArabian : CharSet := CharSet.ofRuns [
  "1gm8-v"]

def oldTurkic : CharSet := CharSet.ofRuns [
  "1gxs-20"]

def oldUyghur : CharSet := CharSet.ofRuns [
  "1hm8-p"]

def oriya : CharSet := CharSet.ofRuns [
  "269-2 1-7 2-1 2-l 1-6 1-1 1-4 2-8 2-1 2-2 7-2 4-1 1-4 2-h"]

def osage : CharSet := CharSet.ofRuns [
  "1fhs-z 4-z"]

def osmanya : CharSet := CharSet.ofRuns [
  "1fgg-t 2-9"]

def pahawhHmong : CharSet := CharSet.ofRuns [
  "1zpc-1x a-9 1-6 1-k 5-i"]

def palmyrene : CharSet := CharSet.ofRuns [
  "1g80-v"]

def pauCinHau : CharSet := CharSet.ofRuns [
  "1juo-1k"]

def phagsPa : CharSet := CharSet.ofRuns [
  "x8g-1j"]

def phoenician : CharSet := CharSet.ofRuns [
  "1gcg-r 3"]

def psalterPahlavi : CharSet := CharSet.ofRuns [
  "1gu8-h 7-3 c-6"]

def rejang : CharSet := CharSet.ofRuns [
  "xf4-z b"]

def runic : CharSet := CharSet.ofRuns [
  "4gw-22 3-a"]

def samaritan : CharSet := CharSet.ofRuns [
  "1kw-19 2-e"]

def saurashtra : CharSet := CharSet.ofRuns [
  "xa8-1x 8-b"]

def sharada : CharSet := CharSet.ofRuns [
  "1i0w-2n"]

def shavian : CharSet := CharSet.ofRuns [
  "1ff4-1b"]

def siddham : CharSet := CharSet.ofRuns [
  "1itc-1h 2-11"]

def signwriting : CharSet := CharSet.ofRuns [
  "2l8g-i3 f-4 1-e"]

def sinhala : CharSet := CharSet.ofRuns [
  "2o1-2 1-h 3-n 1-8 1 2-6 3 4-5 1 1-7 6-9 2-2 1fcc-j"]

def sogdian : CharSet := CharSet.ofRuns [
  "1hkg-15"]

def soraSompeng : CharSet := CharSet.ofRuns [
  "1hw0-o 7-9"]

def soyombo : CharSet := CharSet.ofRuns [
  "1jrk-2a"]

def sundanese : CharSet := CharSet.ofRuns [
  "5fk-1r 74-7"]

def sylotiNagri : CharSet := CharSet.ofRuns [
  "x6o-18"]

def syriac : CharSet := CharSet.ofRuns [
  "1ds-d 1-1n 2-2 7k-a"]

def tagalog : CharSet := CharSet.ofRuns [
  "4jk-l 9"]

def tagbanwa : CharSet := CharSet.ofRuns [
  "4m8-c 1-2 1-1"]

def taiLe : CharSet := CharSet.ofRuns [
  "500-t 2-4"]

def taiTham : CharSet := CharSet.ofRuns [
  "55s-1q 1-s 2-a 6-9 6-d"]

def taiViet : CharSet := CharSet.ofRuns [
  "xog-1u o-4"]

def takri : CharSet := CharSet.ofRuns [
  "1j0g-1l 6-9"]

def tamil : CharSet := CharSet.ofRuns [
  "29u-1 1-5 3-2 1-3 3-1 1 1-1 3-1 3-2 3-b 4-4 3-2 1-3 2 6 e-k 1ih1-1d d"]

def tangsa : CharSet := CharSet.ofRuns [
  "1zlc-26 1-9"]

def tangut : CharSet := CharSet.ofRuns [
  "20o0 v-4qf 8-lb e8-8"]

def telugu : CharSet := CharSet.ofRuns [
  "2dc-c 1-2 1-m 1-f 2-8 1-2 1-3 7-1 1-2 2 2-3 2-9 7-8"]

def thaana : CharSet := CharSet.ofRuns [
  "1hc-1d"]

def thai : CharSet := CharSet.ofRuns [
  "2rl-1l 5-r"]

def tibetan : CharSet := CharSet.ofRuns [
  "2yo-1z 1-z 4-12 1-z 1-e 1-6 4-1"]

def tifinagh : CharSet := CharSet.ofRuns [
  "8xc-1j 7-1 e"]

def tirhuta : CharSet := CharSet.ofRuns [
  "1im8-1z 8-9"]

def toto : CharSet := CharSet.ofRuns [
  "2nbk-u"]

def ugaritic : CharSet := CharSet.ofRuns [
  "1f9c-t 1"]

def vai : CharSet := CharSet.ofRuns [
  "wlc-8b"]

def vithkuqi : CharSet := CharSet.ofRuns [
  "1fn4-a 1-e 1-6 1-1 1-a 1-e 1-6 1-1"]

def wancho : CharSet := CharSet.ofRuns [
  "2ncw-1l 5"]

def warangCiti : CharSet := CharSet.ofRuns [
  "1jfk-2a c"]

def yezidi : CharSet := CharSet.ofRuns [
  "1hfk-15 1-2 2-1"]

def yi : CharSet := CharSet.ofRuns [
  "vls-wc 3-1i"]

def zanabazarSquare : CharSet := CharSet.ofRuns [
  "1jpc-1z"]

/-- The script called `name`, where letters are lower case and blanks, hyphens and
underscores are gone. -/
def named? (name : String) : Option CharSet :=
  match name with
  | "adlm" | "adlam" => some adlam
  | "ahom" => some ahom
  | "hluw" | "anatolianhieroglyphs" => some anatolianHieroglyphs
  | "arab" | "arabic" => some arabic
  | "armn" | "armenian" => some armenian
  | "avst" | "avestan" => some avestan
  | "bali" | "balinese" => some balinese
  | "bamu" | "bamum" => some bamum
  | "bass" | "bassavah" => some bassaVah
  | "batk" | "batak" => some batak
  | "beng" | "bengali" => some bengali
  | "bhks" | "bhaiksuki" => some bhaiksuki
  | "bopo" | "bopomofo" => some bopomofo
  | "brah" | "brahmi" => some brahmi
  | "brai" | "braille" => some braille
  | "bugi" | "buginese" => some buginese
  | "buhd" | "buhid" => some buhid
  | "cans" | "canadianaboriginal" => some canadianAboriginal
  | "cari" | "carian" => some carian
  | "aghb" | "caucasianalbanian" => some caucasianAlbanian
  | "cakm" | "chakma" => some chakma
  | "cham" => some cham
  | "cher" | "cherokee" => some cherokee
  | "chrs" | "chorasmian" => some chorasmian
  | "zyyy" | "common" => some common
  | "copt" | "qaac" | "coptic" => some coptic
  | "xsux" | "cuneiform" => some cuneiform
  | "cprt" | "cypriot" => some cypriot
  | "cpmn" | "cyprominoan" => some cyproMinoan
  | "cyrl" | "cyrillic" => some cyrillic
  | "dsrt" | "deseret" => some deseret
  | "deva" | "devanagari" => some devanagari
  | "diak" | "divesakuru" => some divesAkuru
  | "dogr" | "dogra" => some dogra
  | "dupl" | "duployan" => some duployan
  | "egyp" | "egyptianhieroglyphs" => some egyptianHieroglyphs
  | "elba" | "elbasan" => some elbasan
  | "elym" | "elymaic" => some elymaic
  | "ethi" | "ethiopic" => some ethiopic
  | "geor" | "georgian" => some georgian
  | "glag" | "glagolitic" => some glagolitic
  | "goth" | "gothic" => some gothic
  | "gran" | "grantha" => some grantha
  | "grek" | "greek" => some greek
  | "gujr" | "gujarati" => some gujarati
  | "gong" | "gunjalagondi" => some gunjalaGondi
  | "guru" | "gurmukhi" => some gurmukhi
  | "han" | "hani" => some han
  | "hang" | "hangul" => some hangul
  | "rohg" | "hanifirohingya" => some hanifiRohingya
  | "hano" | "hanunoo" => some hanunoo
  | "hatr" | "hatran" => some hatran
  | "hebr" | "hebrew" => some hebrew
  | "hira" | "hiragana" => some hiragana
  | "armi" | "imperialaramaic" => some imperialAramaic
  | "qaai" | "zinh" | "inherited" => some inherited
  | "phli" | "inscriptionalpahlavi" => some inscriptionalPahlavi
  | "prti" | "inscriptionalparthian" => some inscriptionalParthian
  | "java" | "javanese" => some javanese
  | "kthi" | "kaithi" => some kaithi
  | "knda" | "kannada" => some kannada
  | "kana" | "katakana" => some katakana
  | "kawi" => some kawi
  | "kali" | "kayahli" => some kayahLi
  | "khar" | "kharoshthi" => some kharoshthi
  | "kits" | "khitansmallscript" => some khitanSmallScript
  | "khmr" | "khmer" => some khmer
  | "khoj" | "khojki" => some khojki
  | "sind" | "khudawadi" => some khudawadi
  | "lao" | "laoo" => some lao
  | "latn" | "latin" => some latin
  | "lepc" | "lepcha" => some lepcha
  | "limb" | "limbu" => some limbu
  | "lina" | "lineara" => some linearA
  | "linb" | "linearb" => some linearB
  | "lisu" => some lisu
  | "lyci" | "lycian" => some lycian
  | "lydi" | "lydian" => some lydian
  | "mahj" | "mahajani" => some mahajani
  | "maka" | "makasar" => some makasar
  | "mlym" | "malayalam" => some malayalam
  | "mand" | "mandaic" => some mandaic
  | "mani" | "manichaean" => some manichaean
  | "marc" | "marchen" => some marchen
  | "gonm" | "masaramgondi" => some masaramGondi
  | "medf" | "medefaidrin" => some medefaidrin
  | "mtei" | "meeteimayek" => some meeteiMayek
  | "mend" | "mendekikakui" => some mendeKikakui
  | "merc" | "meroiticcursive" => some meroiticCursive
  | "mero" | "meroitichieroglyphs" => some meroiticHieroglyphs
  | "miao" | "plrd" => some miao
  | "modi" => some modi
  | "mong" | "mongolian" => some mongolian
  | "mro" | "mroo" => some mro
  | "mult" | "multani" => some multani
  | "mymr" | "myanmar" => some myanmar
  | "nbat" | "nabataean" => some nabataean
  | "nagm" | "nagmundari" => some nagMundari
  | "nand" | "nandinagari" => some nandinagari
  | "talu" | "newtailue" => some newTaiLue
  | "newa" => some newa
  | "nko" | "nkoo" => some nko
  | "nshu" | "nushu" => some nushu
  | "hmnp" | "nyiakengpuachuehmong" => some nyiakengPuachueHmong
  | "ogam" | "ogham" => some ogham
  | "olck" | "olchiki" => some olChiki
  | "hung" | "oldhungarian" => some oldHungarian
  | "ital" | "olditalic" => some oldItalic
  | "narb" | "oldnortharabian" => some oldNorthArabian
  | "perm" | "oldpermic" => some oldPermic
  | "xpeo" | "oldpersian" => some oldPersian
  | "sogo" | "oldsogdian" => some oldSogdian
  | "sarb" | "oldsoutharabian" => some oldSouthArabian
  | "orkh" | "oldturkic" => some oldTurkic
  | "ougr" | "olduyghur" => some oldUyghur
  | "orya" | "oriya" => some oriya
  | "osge" | "osage" => some osage
  | "osma" | "osmanya" => some osmanya
  | "hmng" | "pahawhhmong" => some pahawhHmong
  | "palm" | "palmyrene" => some palmyrene
  | "pauc" | "paucinhau" => some pauCinHau
  | "phag" | "phagspa" => some phagsPa
  | "phnx" | "phoenician" => some phoenician
  | "phlp" | "psalterpahlavi" => some psalterPahlavi
  | "rjng" | "rejang" => some rejang
  | "runr" | "runic" => some runic
  | "samr" | "samaritan" => some samaritan
  | "saur" | "saurashtra" => some saurashtra
  | "shrd" | "sharada" => some sharada
  | "shaw" | "shavian" => some shavian
  | "sidd" | "siddham" => some siddham
  | "sgnw" | "signwriting" => some signwriting
  | "sinh" | "sinhala" => some sinhala
  | "sogd" | "sogdian" => some sogdian
  | "sora" | "sorasompeng" => some soraSompeng
  | "soyo" | "soyombo" => some soyombo
  | "sund" | "sundanese" => some sundanese
  | "sylo" | "sylotinagri" => some sylotiNagri
  | "syrc" | "syriac" => some syriac
  | "tglg" | "tagalog" => some tagalog
  | "tagb" | "tagbanwa" => some tagbanwa
  | "tale" | "taile" => some taiLe
  | "lana" | "taitham" => some taiTham
  | "tavt" | "taiviet" => some taiViet
  | "takr" | "takri" => some takri
  | "taml" | "tamil" => some tamil
  | "tnsa" | "tangsa" => some tangsa
  | "tang" | "tangut" => some tangut
  | "telu" | "telugu" => some telugu
  | "thaa" | "thaana" => some thaana
  | "thai" => some thai
  | "tibt" | "tibetan" => some tibetan
  | "tfng" | "tifinagh" => some tifinagh
  | "tirh" | "tirhuta" => some tirhuta
  | "toto" => some toto
  | "ugar" | "ugaritic" => some ugaritic
  | "vai" | "vaii" => some vai
  | "vith" | "vithkuqi" => some vithkuqi
  | "wcho" | "wancho" => some wancho
  | "wara" | "warangciti" => some warangCiti
  | "yezi" | "yezidi" => some yezidi
  | "yi" | "yiii" => some yi
  | "zanb" | "zanabazarsquare" => some zanabazarSquare
  | _ => none

end Grove.Unicode.Script
