import CompilingProxy.Text.Composition

/-!
# Folding of names

Names that look alike are to be one name: letters are folded to small ones, characters of other
widths and shapes to plain ones, some characters are left out, and most that are no letters or marks
are not allowed.
-/

namespace CompilingProxy.Text

open Std (HashMap)

/-- The characters that stand for others in names. -/
def folds : String := "
  41-5a 61; a0 20; a8 20+308; aa 61; af 20+304; b2 32 33 20+301 3bc; b8 20+327 31 6f; bc
  31+2044+34 31+2044+32 33+2044+34; c6 e6; d0 f0; d8 f8; de fe; 110 111; 126 127; 132 69+6a 69+6a;
  13f 6c+b7 6c+b7 142; 149 2bc+6e 14b; 152 153; 166 167; 17f 73; 181 253 183; 184 185; 186 254
  188; 189 256 257 18c; 18e 1dd 259 25b 192; 193 260 263; 196 269 268 199; 19c 26f 272; 19f 275;
  1a2 1a3; 1a4 1a5; 1a6 280 1a8; 1a9 283; 1ac 1ad; 1ae 288; 1b1 28a 28b 1b4; 1b5 1b6; 1b7 292 1b9;
  1bc 1bd; 1c4 64+17e 64+17e 64+17e 6c+6a 6c+6a 6c+6a 6e+6a 6e+6a 6e+6a; 1e4 1e5; 1f1 64+7a 64+7a
  64+7a; 1f6 195 1bf; 21c 21d; 220 19e; 222 223; 224 225; 23a 2c65 23c; 23d 19a 2c66; 241 242; 243
  180 289 28c; 246-24e/2 247; 2b0 68 266 6a 72 279 27b 281 77 79; 2d8 20+306 20+307 20+30a 20+328
  20+303 20+30b; 2e0 263 6c 73 78 295; 345 3b9; 370 371; 372 373; 376 377; 37a 20+3b9; 37f 3f3;
  384 20+301; 391-3a1 3b1; 3a3-3a9 3c3; 3cf 3d7 3b2 3b8 3c5; 3d5 3c6 3c0; 3d8-3ee/2 3d9; 3f0 3ba
  3c1 3c3; 3f4 3b8 3b5; 3f7 3f8; 3f9 3c3 3fb; 3fd-3ff 37b; 402-40a/2 452; 405 455; 409 459; 40b
  45b; 40f 45f; 410-42e/2 430; 411-417/2 431; 41b-42f/2 43b; 460-474/2 461; 478-480/2 479;
  48a-4be/2 48b; 4c0 4cf; 4c3-4cd/2 4c4; 4d4 4d5; 4d8 4d9; 4e0 4e1; 4e8 4e9; 4f6 4f7; 4fa-52e/2
  4fb; 531-556 561; 587 565+582; 675 627+674 648+674 6c7+674 64a+674; e33 e4d+e32; eb3 ecd+eb2;
  edc eab+e99 eab+ea1; f0c f0b; f77 fb2+f71+f80; f79 fb3+f71+f80; 10a0-10c5 2d00; 10c7 2d27; 10cd
  2d2d; 10fc 10dc; 13f8-13fd 13f0; 1c80 432 434 43e 441 442 442 44a 463 a64b 1c8a; 1c90-1cba 10d0;
  1cbd-1cbf 10fd; 1d2c 61 e6 62; 1d30 64; 1d31-1d39/2 65; 1d32 1dd; 1d34-1d3a/2 68; 1d3c 6f 223 70
  72 74 75 77 61 250 251 1d02 62 64 65 259 25b 25c 67; 1d4f 6b 6d 14b 6f 254 1d16 1d17 70 74 75
  1d1d 26f 76 1d25; 1d5d-1d5f 3b2; 1d60 3c6 3c7 69 72 75 76 3b2 3b3 3c1 3c6 3c7; 1d78 43d; 1d9b
  252 63 255 f0 25c 66 25f 261 265; 1da4-1da6 268; 1da7 1d7b 29d 26d 1d85 29f 271 270; 1dae-1db1
  272; 1db2 278 282 283 1ab 289 28a 1d1c 28b 28c 7a; 1dbc-1dbe 290; 1dbf 3b8; 1e9a 61+2be; 1e9e
  df; 1efa-1efe/2 1efb; 1fbd 20+313; 1fbf 20+313 20+342; 1ffe 20+314; 2002 20 20 20 20 20 20 20 20
  20; 2011 2010; 2017 20+333; 202f 20; 2033 2032+2032 2032+2032+2032; 2036 2035+2035
  2035+2035+2035; 203c 21+21; 203e 20+305; 2047 3f+3f 3f+21 21+3f; 2057 2032+2032+2032+2032; 205f
  20; 2070 30 69; 2074-2079 34; 207a 2b 2212 3d 28 29 6e; 2080-2089 30; 208a 2b 2212 3d 28 29;
  2090 61 65 6f 78 259 68; 2096-2099 6b; 209a 70 73 74; 20a8 72+73; 2100 61+2f+63 61+2f+73 63
  b0+63; 2105 63+2f+6f 63+2f+75 25b; 2109 b0+66 67 68 68 68 68 127 69 69 6c 6c; 2115 6e 6e+6f;
  2119-211b 70; 211c 72 72; 2120 73+6d 74+65+6c 74+6d; 2124 7a; 2128 7a; 212c 62 63; 212f 65 65 66
  214e 6d 6f; 2135-2138 5d0; 2139 69; 213b 66+61+78 3c0 3b3 3b3 3c0 2211; 2145 64 64 65 69 6a;
  2150 31+2044+37 31+2044+39 31+2044+31+30 31+2044+33 32+2044+33 31+2044+35 32+2044+35 33+2044+35
  34+2044+35 31+2044+36 35+2044+36 31+2044+38 33+2044+38 35+2044+38 37+2044+38 31+2044 69 69+69
  69+69+69 69+76 76 76+69 76+69+69 76+69+69+69 69+78 78 78+69 78+69+69 6c 63 64 6d 69 69+69
  69+69+69 69+76 76 76+69 76+69+69 76+69+69+69 69+78 78 78+69 78+69+69 6c 63 64 6d; 2183 2184;
  2189 30+2044+33; 222c 222b+222b 222b+222b+222b; 222f 222e+222e 222e+222e+222e; 2460-2468 31;
  2469 31+30 31+31 31+32 31+33 31+34 31+35 31+36 31+37 31+38 31+39 32+30 28+31+29 28+32+29
  28+33+29 28+34+29 28+35+29 28+36+29 28+37+29 28+38+29 28+39+29 28+31+30+29 28+31+31+29
  28+31+32+29 28+31+33+29 28+31+34+29 28+31+35+29 28+31+36+29 28+31+37+29 28+31+38+29 28+31+39+29
  28+32+30+29; 249c 28+61+29 28+62+29 28+63+29 28+64+29 28+65+29 28+66+29 28+67+29 28+68+29
  28+69+29 28+6a+29 28+6b+29 28+6c+29 28+6d+29 28+6e+29 28+6f+29 28+70+29 28+71+29 28+72+29
  28+73+29 28+74+29 28+75+29 28+76+29 28+77+29 28+78+29 28+79+29 28+7a+29; 24b6-24cf 61; 24d0-24e9
  61; 24ea 30; 2a0c 222b+222b+222b+222b; 2a74 3a+3a+3d 3d+3d 3d+3d+3d; 2c00-2c2f 2c30; 2c60 2c61;
  2c62 26b 1d7d 27d; 2c67-2c6b/2 2c68; 2c6d 251 271 250 252; 2c72 2c73; 2c75 2c76; 2c7c 6a 76 23f
  240; 2c80-2ce2/2 2c81; 2ceb 2cec; 2ced 2cee; 2cf2 2cf3; 2d6f 2d61; 2e9f 6bcd; 2ef3 9f9f; 2f00
  4e00 4e28 4e36 4e3f 4e59 4e85 4e8c 4ea0 4eba 513f 5165 516b 5182 5196 51ab 51e0 51f5 5200 529b
  52f9 5315 531a 5338 5341 535c 5369 5382 53b6 53c8 53e3 56d7 571f 58eb 5902 590a 5915 5927 5973
  5b50 5b80 5bf8 5c0f 5c22 5c38 5c6e 5c71 5ddb 5de5 5df1 5dfe 5e72 5e7a 5e7f 5ef4 5efe 5f0b 5f13
  5f50 5f61 5f73 5fc3 6208 6236 624b 652f 6534 6587 6597 65a4 65b9 65e0 65e5 66f0 6708 6728 6b20
  6b62 6b79 6bb3 6bcb 6bd4 6bdb 6c0f 6c14 6c34 706b 722a 7236 723b 723f 7247 7259 725b 72ac 7384
  7389 74dc 74e6 7518 751f 7528 7530 758b 7592 7676 767d 76ae 76bf 76ee 77db 77e2 77f3 793a 79b8
  79be 7a74 7acb 7af9 7c73 7cf8 7f36 7f51 7f8a 7fbd 8001 800c 8012 8033 807f 8089 81e3 81ea 81f3
  81fc 820c 821b 821f 826e 8272 8278 864d 866b 8840 884c 8863 897e 898b 89d2 8a00 8c37 8c46 8c55
  8c78 8c9d 8d64 8d70 8db3 8eab 8eca 8f9b 8fb0 8fb5 9091 9149 91c6 91cc 91d1 9577 9580 961c 96b6
  96b9 96e8 9751 975e 9762 9769 97cb 97ed 97f3 9801 98a8 98db 98df 9996 9999 99ac 9aa8 9ad8 9adf
  9b25 9b2f 9b32 9b3c 9b5a 9ce5 9e75 9e7f 9ea5 9ebb 9ec3 9ecd 9ed1 9ef9 9efd 9f0e 9f13 9f20 9f3b
  9f4a 9f52 9f8d 9f9c 9fa0; 3000 20; 3002 2e; 3036 3012; 3038 5341 5344 5345; 309b 20+3099
  20+309a; 309f 3088+308a; 30ff 30b3+30c8; 3131 1100 1101 11aa 1102 11ac 11ad; 3137-3139 1103;
  313a-313f 11b0; 3140 111a; 3141-3143 1106; 3144 1121; 3145-314e 1109; 314f-3163 1161; 3165 1114
  1115 11c7 11c8 11cc 11ce 11d3 11d7 11d9 111c 11dd 11df 111d 111e 1120 1122 1123 1127 1129;
  3178-317c 112b; 317d 1132 1136 1140 1147 114c 11f1 11f2; 3184-3186 1157; 3187 1184 1185 1188
  1191 1192 1194 119e 11a1; 3192 4e00 4e8c 4e09 56db 4e0a 4e2d 4e0b 7532 4e59 4e19 4e01 5929 5730
  4eba; 3200 28+1100+29 28+1102+29 28+1103+29 28+1105+29 28+1106+29 28+1107+29 28+1109+29
  28+110b+29 28+110c+29 28+110e+29 28+110f+29 28+1110+29 28+1111+29 28+1112+29 28+ac00+29
  28+b098+29 28+b2e4+29 28+b77c+29 28+b9c8+29 28+bc14+29 28+c0ac+29 28+c544+29 28+c790+29
  28+cc28+29 28+ce74+29 28+d0c0+29 28+d30c+29 28+d558+29 28+c8fc+29 28+c624+c804+29
  28+c624+d6c4+29; 3220 28+4e00+29 28+4e8c+29 28+4e09+29 28+56db+29 28+4e94+29 28+516d+29
  28+4e03+29 28+516b+29 28+4e5d+29 28+5341+29 28+6708+29 28+706b+29 28+6c34+29 28+6728+29
  28+91d1+29 28+571f+29 28+65e5+29 28+682a+29 28+6709+29 28+793e+29 28+540d+29 28+7279+29
  28+8ca1+29 28+795d+29 28+52b4+29 28+4ee3+29 28+547c+29 28+5b66+29 28+76e3+29 28+4f01+29
  28+8cc7+29 28+5354+29 28+796d+29 28+4f11+29 28+81ea+29 28+81f3+29 554f 5e7c 6587 7b8f; 3250
  70+74+65 32+31 32+32 32+33 32+34 32+35 32+36 32+37 32+38 32+39 33+30 33+31 33+32 33+33 33+34
  33+35 1100 1102 1103; 3263-3265 1105; 3266 1109 110b 110c; 3269-326d 110e; 326e ac00 b098 b2e4
  b77c b9c8 bc14 c0ac c544 c790 cc28 ce74 d0c0 d30c d558 cc38+ace0 c8fc+c758 c6b0; 3280 4e00 4e8c
  4e09 56db 4e94 516d 4e03 516b 4e5d 5341 6708 706b 6c34 6728 91d1 571f 65e5 682a 6709 793e 540d
  7279 8ca1 795d 52b4 79d8 7537 5973 9069 512a 5370 6ce8 9805 4f11 5199 6b63 4e0a 4e2d 4e0b 5de6
  53f3 533b 5b97 5b66 76e3 4f01 8cc7 5354 591c 33+36 33+37 33+38 33+39 34+30 34+31 34+32 34+33
  34+34 34+35 34+36 34+37 34+38 34+39 35+30 31+6708 32+6708 33+6708 34+6708 35+6708 36+6708
  37+6708 38+6708 39+6708 31+30+6708 31+31+6708 31+32+6708 68+67 65+72+67 65+76 6c+74+64 30a2 30a4
  30a6 30a8 30aa 30ab 30ad 30af 30b1 30b3 30b5 30b7 30b9 30bb 30bd 30bf 30c1 30c4 30c6 30c8;
  32e4-32e9 30ca; 32ea 30d2 30d5 30d8 30db; 32ee-32f2 30de; 32f3 30e4 30e6; 32f5-32fa 30e8;
  32fb-32fe 30ef; 32ff 4ee4+548c 30a2+30d1+30fc+30c8 30a2+30eb+30d5+30a1 30a2+30f3+30da+30a2
  30a2+30fc+30eb 30a4+30cb+30f3+30b0 30a4+30f3+30c1 30a6+30a9+30f3 30a8+30b9+30af+30fc+30c9
  30a8+30fc+30ab+30fc 30aa+30f3+30b9 30aa+30fc+30e0 30ab+30a4+30ea 30ab+30e9+30c3+30c8
  30ab+30ed+30ea+30fc 30ac+30ed+30f3 30ac+30f3+30de 30ae+30ac 30ae+30cb+30fc 30ad+30e5+30ea+30fc
  30ae+30eb+30c0+30fc 30ad+30ed 30ad+30ed+30b0+30e9+30e0 30ad+30ed+30e1+30fc+30c8+30eb
  30ad+30ed+30ef+30c3+30c8 30b0+30e9+30e0 30b0+30e9+30e0+30c8+30f3 30af+30eb+30bc+30a4+30ed
  30af+30ed+30fc+30cd 30b1+30fc+30b9 30b3+30eb+30ca 30b3+30fc+30dd 30b5+30a4+30af+30eb
  30b5+30f3+30c1+30fc+30e0 30b7+30ea+30f3+30b0 30bb+30f3+30c1 30bb+30f3+30c8 30c0+30fc+30b9
  30c7+30b7 30c9+30eb 30c8+30f3 30ca+30ce 30ce+30c3+30c8 30cf+30a4+30c4 30d1+30fc+30bb+30f3+30c8
  30d1+30fc+30c4 30d0+30fc+30ec+30eb 30d4+30a2+30b9+30c8+30eb 30d4+30af+30eb 30d4+30b3 30d3+30eb
  30d5+30a1+30e9+30c3+30c9 30d5+30a3+30fc+30c8 30d6+30c3+30b7+30a7+30eb 30d5+30e9+30f3
  30d8+30af+30bf+30fc+30eb 30da+30bd 30da+30cb+30d2 30d8+30eb+30c4 30da+30f3+30b9 30da+30fc+30b8
  30d9+30fc+30bf 30dd+30a4+30f3+30c8 30dc+30eb+30c8 30db+30f3 30dd+30f3+30c9 30db+30fc+30eb
  30db+30fc+30f3 30de+30a4+30af+30ed 30de+30a4+30eb 30de+30c3+30cf 30de+30eb+30af
  30de+30f3+30b7+30e7+30f3 30df+30af+30ed+30f3 30df+30ea 30df+30ea+30d0+30fc+30eb 30e1+30ac
  30e1+30ac+30c8+30f3 30e1+30fc+30c8+30eb 30e4+30fc+30c9 30e4+30fc+30eb 30e6+30a2+30f3
  30ea+30c3+30c8+30eb 30ea+30e9 30eb+30d4+30fc 30eb+30fc+30d6+30eb 30ec+30e0
  30ec+30f3+30c8+30b2+30f3 30ef+30c3+30c8 30+70b9 31+70b9 32+70b9 33+70b9 34+70b9 35+70b9 36+70b9
  37+70b9 38+70b9 39+70b9 31+30+70b9 31+31+70b9 31+32+70b9 31+33+70b9 31+34+70b9 31+35+70b9
  31+36+70b9 31+37+70b9 31+38+70b9 31+39+70b9 32+30+70b9 32+31+70b9 32+32+70b9 32+33+70b9
  32+34+70b9 68+70+61 64+61 61+75 62+61+72 6f+76 70+63 64+6d 64+6d+32 64+6d+33 69+75 5e73+6210
  662d+548c 5927+6b63 660e+6cbb 682a+5f0f+4f1a+793e 70+61 6e+61 3bc+61 6d+61 6b+61 6b+62 6d+62
  67+62 63+61+6c 6b+63+61+6c 70+66 6e+66 3bc+66 3bc+67 6d+67 6b+67 68+7a 6b+68+7a 6d+68+7a
  67+68+7a 74+68+7a 3bc+6c 6d+6c 64+6c 6b+6c 66+6d 6e+6d 3bc+6d 6d+6d 63+6d 6b+6d 6d+6d+32
  63+6d+32 6d+32 6b+6d+32 6d+6d+33 63+6d+33 6d+33 6b+6d+33 6d+2215+73 6d+2215+73+32 70+61 6b+70+61
  6d+70+61 67+70+61 72+61+64 72+61+64+2215+73 72+61+64+2215+73+32 70+73 6e+73 3bc+73 6d+73 70+76
  6e+76 3bc+76 6d+76 6b+76 6d+76 70+77 6e+77 3bc+77 6d+77 6b+77 6d+77 6b+3c9 6d+3c9; 33c3 62+71
  63+63 63+64 63+2215+6b+67; 33c8 64+62 67+79 68+61 68+70 69+6e 6b+6b 6b+6d 6b+74 6c+6d 6c+6e
  6c+6f+67 6c+78 6d+62 6d+69+6c 6d+6f+6c 70+68; 33d9 70+70+6d 70+72 73+72 73+76 77+62 76+2215+6d
  61+2215+6d 31+65e5 32+65e5 33+65e5 34+65e5 35+65e5 36+65e5 37+65e5 38+65e5 39+65e5 31+30+65e5
  31+31+65e5 31+32+65e5 31+33+65e5 31+34+65e5 31+35+65e5 31+36+65e5 31+37+65e5 31+38+65e5
  31+39+65e5 32+30+65e5 32+31+65e5 32+32+65e5 32+33+65e5 32+34+65e5 32+35+65e5 32+36+65e5
  32+37+65e5 32+38+65e5 32+39+65e5 33+30+65e5 33+31+65e5 67+61+6c; a640-a66c/2 a641; a680-a69a/2
  a681; a69c 44a 44c; a722-a72e/2 a723; a732-a76e/2 a733; a770 a76f; a779 a77a; a77b a77c; a77d
  1d79; a77e-a786/2 a77f; a78b a78c; a78d 265; a790 a791; a792 a793; a796-a7a8/2 a797; a7aa 266
  25c 261 26c 26a; a7b0 29e 287 29d ab53; a7b4-a7c2/2 a7b5; a7c4 a794 282 1d8e a7c8; a7c9 a7ca;
  a7cb 264; a7cc-a7da/2 a7cd; a7dc 19b; a7f1 73 63 66 71 a7f6; a7f8 127 153; ab5c a727 ab37 26b
  ab52; ab69 28d; ab70-abbf 13a0; fb00 66+66 66+69 66+6c 66+66+69 66+66+6c 73+74 73+74; fb13
  574+576 574+565 574+56b 57e+576 574+56d; fb20 5e2 5d0 5d3 5d4; fb24-fb26 5db; fb27 5e8 5ea 2b;
  fb4f 5d0+5dc 671 671 67b 67b 67b 67b 67e 67e 67e 67e 680 680 680 680 67a 67a 67a 67a 67f 67f 67f
  67f 679 679 679 679 6a4 6a4 6a4 6a4 6a6 6a6 6a6 6a6 684 684 684 684 683 683 683 683 686 686 686
  686 687 687 687 687 68d 68d 68c 68c 68e 68e 688 688 698 698 691 691 6a9 6a9 6a9 6a9 6af 6af 6af
  6af 6b3 6b3 6b3 6b3 6b1 6b1 6b1 6b1 6ba 6ba 6bb 6bb 6bb 6bb 6c0 6c0 6c1 6c1 6c1 6c1 6be 6be 6be
  6be 6d2 6d2 6d3 6d3; fbd3 6ad 6ad 6ad 6ad 6c7 6c7 6c6 6c6 6c8 6c8 6c7+674 6cb 6cb 6c5 6c5 6c9
  6c9 6d0 6d0 6d0 6d0 649 649 626+627 626+627 626+6d5 626+6d5 626+648 626+648 626+6c7 626+6c7
  626+6c6 626+6c6 626+6c8 626+6c8 626+6d0 626+6d0 626+6d0 626+649 626+649 626+649 6cc 6cc 6cc 6cc
  626+62c 626+62d 626+645 626+649 626+64a 628+62c 628+62d 628+62e 628+645 628+649 628+64a 62a+62c
  62a+62d 62a+62e 62a+645 62a+649 62a+64a 62b+62c 62b+645 62b+649 62b+64a 62c+62d 62c+645 62d+62c
  62d+645 62e+62c 62e+62d 62e+645 633+62c 633+62d 633+62e 633+645 635+62d 635+645 636+62c 636+62d
  636+62e 636+645 637+62d 637+645 638+645 639+62c 639+645 63a+62c 63a+645 641+62c 641+62d 641+62e
  641+645 641+649 641+64a 642+62d 642+645 642+649 642+64a 643+627 643+62c 643+62d 643+62e 643+644
  643+645 643+649 643+64a 644+62c 644+62d 644+62e 644+645 644+649 644+64a 645+62c 645+62d 645+62e
  645+645 645+649 645+64a 646+62c 646+62d 646+62e 646+645 646+649 646+64a 647+62c 647+645 647+649
  647+64a 64a+62c 64a+62d 64a+62e 64a+645 64a+649 64a+64a 630+670 631+670 649+670 20+64c+651
  20+64d+651 20+64e+651 20+64f+651 20+650+651 20+651+670 626+631 626+632 626+645 626+646 626+649
  626+64a 628+631 628+632 628+645 628+646 628+649 628+64a 62a+631 62a+632 62a+645 62a+646 62a+649
  62a+64a 62b+631 62b+632 62b+645 62b+646 62b+649 62b+64a 641+649 641+64a 642+649 642+64a 643+627
  643+644 643+645 643+649 643+64a 644+645 644+649 644+64a 645+627 645+645 646+631 646+632 646+645
  646+646 646+649 646+64a 649+670 64a+631 64a+632 64a+645 64a+646 64a+649 64a+64a 626+62c 626+62d
  626+62e 626+645 626+647 628+62c 628+62d 628+62e 628+645 628+647 62a+62c 62a+62d 62a+62e 62a+645
  62a+647 62b+645 62c+62d 62c+645 62d+62c 62d+645 62e+62c 62e+645 633+62c 633+62d 633+62e 633+645
  635+62d 635+62e 635+645 636+62c 636+62d 636+62e 636+645 637+62d 638+645 639+62c 639+645 63a+62c
  63a+645 641+62c 641+62d 641+62e 641+645 642+62d 642+645 643+62c 643+62d 643+62e 643+644 643+645
  644+62c 644+62d 644+62e 644+645 644+647 645+62c 645+62d 645+62e 645+645 646+62c 646+62d 646+62e
  646+645 646+647 647+62c 647+645 647+670 64a+62c 64a+62d 64a+62e 64a+645 64a+647 626+645 626+647
  628+645 628+647 62a+645 62a+647 62b+645 62b+647 633+645 633+647 634+645 634+647 643+644 643+645
  644+645 646+645 646+647 64a+645 64a+647 640+64e+651 640+64f+651 640+650+651 637+649 637+64a
  639+649 639+64a 63a+649 63a+64a 633+649 633+64a 634+649 634+64a 62d+649 62d+64a 62c+649 62c+64a
  62e+649 62e+64a 635+649 635+64a 636+649 636+64a 634+62c 634+62d 634+62e 634+645 634+631 633+631
  635+631 636+631 637+649 637+64a 639+649 639+64a 63a+649 63a+64a 633+649 633+64a 634+649 634+64a
  62d+649 62d+64a 62c+649 62c+64a 62e+649 62e+64a 635+649 635+64a 636+649 636+64a 634+62c 634+62d
  634+62e 634+645 634+631 633+631 635+631 636+631 634+62c 634+62d 634+62e 634+645 633+647 634+647
  637+645 633+62c 633+62d 633+62e 634+62c 634+62d 634+62e 637+645 638+645 627+64b 627+64b; fd50
  62a+62c+645 62a+62d+62c 62a+62d+62c 62a+62d+645 62a+62e+645 62a+645+62c 62a+645+62d 62a+645+62e
  62c+645+62d 62c+645+62d 62d+645+64a 62d+645+649 633+62d+62c 633+62c+62d 633+62c+649 633+645+62d
  633+645+62d 633+645+62c 633+645+645 633+645+645 635+62d+62d 635+62d+62d 635+645+645 634+62d+645
  634+62d+645 634+62c+64a 634+645+62e 634+645+62e 634+645+645 634+645+645 636+62d+649 636+62e+645
  636+62e+645 637+645+62d 637+645+62d 637+645+645 637+645+64a 639+62c+645 639+645+645 639+645+645
  639+645+649 63a+645+645 63a+645+64a 63a+645+649 641+62e+645 641+62e+645 642+645+62d 642+645+645
  644+62d+645 644+62d+64a 644+62d+649 644+62c+62c 644+62c+62c 644+62e+645 644+62e+645 644+645+62d
  644+645+62d 645+62d+62c 645+62d+645 645+62d+64a 645+62c+62d 645+62c+645 645+62e+62c 645+62e+645;
  fd92 645+62c+62e 647+645+62c 647+645+645 646+62d+645 646+62d+649 646+62c+645 646+62c+645
  646+62c+649 646+645+64a 646+645+649 64a+645+645 64a+645+645 628+62e+64a 62a+62c+64a 62a+62c+649
  62a+62e+64a 62a+62e+649 62a+645+64a 62a+645+649 62c+645+64a 62c+62d+649 62c+645+649 633+62e+649
  635+62d+64a 634+62d+64a 636+62d+64a 644+62c+64a 644+645+64a 64a+62d+64a 64a+62c+64a 64a+645+64a
  645+645+64a 642+645+64a 646+62d+64a 642+645+62d 644+62d+645 639+645+64a 643+645+64a 646+62c+62d
  645+62e+64a 644+62c+645 643+645+645 644+62c+645 646+62c+62d 62c+62d+64a 62d+62c+64a 645+62c+64a
  641+645+64a 628+62d+64a 643+645+645 639+62c+645 635+645+645 633+62e+64a 646+62c+64a; fdf0
  635+644+6d2 642+644+6d2 627+644+644+647 627+643+628+631 645+62d+645+62f 635+644+639+645
  631+633+648+644 639+644+64a+647 648+633+644+645 635+644+649
  635+644+649+20+627+644+644+647+20+639+644+64a+647+20+648+633+644+645
  62c+644+20+62c+644+627+644+647 631+6cc+627+644; fe10 2c 3001; fe13 3a 3b 21 3f 3016 3017; fe31
  2014 2013 5f 5f 28 29 7b 7d 3014 3015 3010 3011 300a 300b 3008 3009; fe41-fe44 300c; fe47 5b 5d
  20+305 20+305 20+305 20+305 5f 5f 5f 2c 3001; fe54 3b 3a 3f 21 2014 28 29 7b 7d 3014 3015 23 26
  2a 2b 2d 3c 3e 3d; fe68 5c 24 25 40; fe70 20+64b 640+64b 20+64c; fe74 20+64d; fe76 20+64e
  640+64e 20+64f 640+64f 20+650 640+650 20+651 640+651 20+652 640+652 621 622 622 623 623 624 624
  625 625 626 626 626 626 627 627 628 628 628 628 629 629 62a 62a 62a 62a 62b 62b 62b 62b 62c 62c
  62c 62c 62d 62d 62d 62d 62e 62e 62e 62e 62f 62f 630 630 631 631 632 632 633 633 633 633 634 634
  634 634 635 635 635 635 636 636 636 636 637 637 637 637 638 638 638 638 639 639 639 639 63a 63a
  63a 63a 641 641 641 641 642 642 642 642 643 643 643 643 644 644 644 644 645 645 645 645 646 646
  646 646 647 647 647 647 648 648 649 649 64a 64a 64a 64a 644+622 644+622 644+623 644+623 644+625
  644+625 644+627 644+627; ff01-ff20 21; ff21-ff3a 61; ff3b-ff5e 5b; ff5f 2985 2986 2e 300c 300d
  3001 30fb 30f2 30a1 30a3 30a5 30a7 30a9 30e3 30e5 30e7 30c3 30fc 30a2 30a4 30a6 30a8 30aa 30ab
  30ad 30af 30b1 30b3 30b5 30b7 30b9 30bb 30bd 30bf 30c1 30c4 30c6 30c8; ff85-ff8a 30ca; ff8b 30d2
  30d5 30d8 30db; ff8f-ff93 30de; ff94 30e4 30e6; ff96-ff9b 30e8; ff9c 30ef 30f3 3099 309a; ffa1
  1100 1101 11aa 1102 11ac 11ad; ffa7-ffa9 1103; ffaa-ffaf 11b0; ffb0 111a; ffb1-ffb3 1106; ffb4
  1121; ffb5-ffbe 1109; ffc2-ffc7 1161; ffca-ffcf 1167; ffd2-ffd7 116d; ffda-ffdc 1173; ffe0 a2 a3
  ac 20+304 a6 a5 20a9; ffe8 2502; ffe9-ffec 2190; ffed 25a0 25cb; 10400-10427 10428; 104b0-104d3
  104d8; 10570-10594/2 10597; 10571-10579/2 10598; 1057d-10589/2 105a4; 1058d-10591/2 105b4; 10595
  105bc; 10781 2d0 2d1 e6 299 253; 10787 2a3 ab66 2a5 2a4 256 257 1d91 258 25e 2a9 264 262 260 29b
  127 29c 267 284 2aa 2ab 26c 1df04 a78e 26e 1df05 28e 1df06 f8 276 277 71 27a 1df08 27d 27e 280
  2a8 2a6 ab67 2a7 288 2c71; 107b2 28f 2a1 2a2 298; 107b6-107b8 1c0; 107b9 1df0a 1df1e;
  10c80-10cb2 10cc0; 10d50-10d65 10d70; 118a0-118bf 118c0; 16e40-16e5f 16e60; 16ea0-16eb8 16ebb;
  1ccd6-1ccef 61; 1ccf0-1ccf9 30; 1d400-1d419 61; 1d41a-1d433 61; 1d434-1d44d 61; 1d44e-1d466/2
  61; 1d44f-1d453/2 62; 1d457-1d467/2 6a; 1d468-1d481 61; 1d482-1d49b 61; 1d49c 61; 1d49e 63 64;
  1d4a2 67; 1d4a5 6a 6b; 1d4a9-1d4ac 6e; 1d4ae-1d4b5 73; 1d4b6-1d4b9 61; 1d4bb-1d4cf/2 66;
  1d4be-1d4c2/2 69; 1d4c6-1d4ce/2 71; 1d4d0-1d4e9 61; 1d4ea-1d503 61; 1d504 61; 1d505-1d509/2 62;
  1d508 65; 1d50a 67; 1d50d-1d514 6a; 1d516-1d51c 73; 1d51e-1d537 61; 1d538 61; 1d539-1d53d/2 62;
  1d53c-1d546/2 65; 1d541 6a; 1d543 6c; 1d54a-1d550 73; 1d552-1d56b 61; 1d56c-1d585 61;
  1d586-1d59f 61; 1d5a0-1d5b9 61; 1d5ba-1d5d3 61; 1d5d4-1d5ed 61; 1d5ee-1d607 61; 1d608-1d621 61;
  1d622-1d63b 61; 1d63c-1d655 61; 1d656-1d66f 61; 1d670-1d689 61; 1d68a-1d6a3 61; 1d6a4 131 237;
  1d6a8-1d6b8 3b1; 1d6b9 3b8; 1d6ba-1d6c0 3c3; 1d6c1 2207; 1d6c2-1d6d2 3b1; 1d6d3 3c3; 1d6d4-1d6da
  3c3; 1d6db 2202 3b5 3b8 3ba 3c6 3c1 3c0; 1d6e2-1d6f2 3b1; 1d6f3 3b8; 1d6f4-1d6fa 3c3; 1d6fb
  2207; 1d6fc-1d70c 3b1; 1d70d 3c3; 1d70e-1d714 3c3; 1d715 2202 3b5 3b8 3ba 3c6 3c1 3c0;
  1d71c-1d72c 3b1; 1d72d 3b8; 1d72e-1d734 3c3; 1d735 2207; 1d736-1d746 3b1; 1d747 3c3; 1d748-1d74e
  3c3; 1d74f 2202 3b5 3b8 3ba 3c6 3c1 3c0; 1d756-1d766 3b1; 1d767 3b8; 1d768-1d76e 3c3; 1d76f
  2207; 1d770-1d780 3b1; 1d781 3c3; 1d782-1d788 3c3; 1d789 2202 3b5 3b8 3ba 3c6 3c1 3c0;
  1d790-1d7a0 3b1; 1d7a1 3b8; 1d7a2-1d7a8 3c3; 1d7a9 2207; 1d7aa-1d7ba 3b1; 1d7bb 3c3; 1d7bc-1d7c2
  3c3; 1d7c3 2202 3b5 3b8 3ba 3c6 3c1 3c0 3dd 3dd; 1d7ce-1d7d7 30; 1d7d8-1d7e1 30; 1d7e2-1d7eb 30;
  1d7ec-1d7f5 30; 1d7f6-1d7ff 30; 1e030-1e038 430; 1e039-1e03b 43a; 1e03c-1e046 43e; 1e047 44b 44d
  44e a689 4d9 456 458 4e9 4af 4cf; 1e051-1e059 430; 1e05a 43a 43b 43e 43f 441; 1e05f-1e064 443;
  1e065 44a 44b 491 456 455 45f 4ab a651 4b1; 1e900-1e921 1e922; 1ee00 627 628 62c 62f; 1ee05 648
  632 62d 637 64a; 1ee0a-1ee0d 643; 1ee0e 633 639 641 635 642 631 634 62a 62b 62e 630 636 638 63a
  66e 6ba 6a1 66f; 1ee21 628 62c; 1ee24 647; 1ee27 62d; 1ee29 64a; 1ee2a-1ee2d 643; 1ee2e 633 639
  641 635 642; 1ee34 634 62a 62b 62e; 1ee39 636; 1ee3b 63a; 1ee42 62c; 1ee47 62d; 1ee49 64a; 1ee4b
  644; 1ee4d 646 633 639; 1ee51 635 642; 1ee54 634; 1ee57 62e; 1ee59 636; 1ee5b 63a; 1ee5d 6ba;
  1ee5f 66f; 1ee61 628 62c; 1ee64 647; 1ee67 62d 637 64a 643; 1ee6c 645 646 633 639 641 635 642;
  1ee74 634 62a 62b 62e; 1ee79 636 638 63a 66e; 1ee7e 6a1; 1ee80 627 628 62c 62f 647 648 632 62d
  637 64a; 1ee8b-1ee8d 644; 1ee8e 633 639 641 635 642 631 634 62a 62b 62e 630 636 638 63a; 1eea1
  628 62c 62f; 1eea5 648 632 62d 637 64a; 1eeab-1eead 644; 1eeae 633 639 641 635 642 631 634 62a
  62b 62e 630 636 638 63a; 1f101 30+2c 31+2c 32+2c 33+2c 34+2c 35+2c 36+2c 37+2c 38+2c 39+2c;
  1f110 28+61+29 28+62+29 28+63+29 28+64+29 28+65+29 28+66+29 28+67+29 28+68+29 28+69+29 28+6a+29
  28+6b+29 28+6c+29 28+6d+29 28+6e+29 28+6f+29 28+70+29 28+71+29 28+72+29 28+73+29 28+74+29
  28+75+29 28+76+29 28+77+29 28+78+29 28+79+29 28+7a+29 3014+73+3015 63 72 63+64 77+7a;
  1f130-1f149 61; 1f14a 68+76 6d+76 73+64 73+73 70+70+76 77+63; 1f16a 6d+63 6d+64 6d+72; 1f190
  64+6a; 1f200 307b+304b 30b3+30b3 30b5; 1f210 624b 5b57 53cc 30c7 4e8c 591a 89e3 5929 4ea4 6620
  7121 6599 524d 5f8c 518d 65b0 521d 7d42 751f 8ca9 58f0 5439 6f14 6295 6355 4e00 4e09 904a 5de6
  4e2d 53f3 6307 8d70 6253 7981 7a7a 5408 6e80 6709 6708 7533 5272 55b6 914d; 1f240 3014+672c+3015
  3014+4e09+3015 3014+4e8c+3015 3014+5b89+3015 3014+70b9+3015 3014+6253+3015 3014+76d7+3015
  3014+52dd+3015 3014+6557+3015; 1f250 5f97 53ef; 1fbf0-1fbf9 30"

/-- The characters that are left out of names. -/
def silent : String := "
  ad 34f 115f-1160 17b4-17b5 180b-180f 200b 2060-2064 206a-206f 3164 fe00-fe0f feff ffa0
  1bca0-1bca3 1d173-1d17a e0100-e01ef"

/-- The characters that stand for themselves in names, of those that have no parts and neither stand
for others nor are left out. -/
def plain : String := "
  0-7f a1-377 37b-37d 3b1-52f 559-58a 58d-58f 591-5c7 5d0-5ea 5ef-5f4 606-61b 61d-6dc 6de-70d
  710-74a 74d-7b1 7c0-7fa 7fd-82d 830-83e 840-85b 85e 860-86a 870-88f 897-8e1 8e3-983 985-98c
  98f-990 993-9a8 9aa-9b0 9b2 9b6-9b9 9bc-9c4 9c7-9c8 9cd-9ce 9d7 9e0-9e3 9e6-9fe a01-a03 a05-a0a
  a0f-a10 a13-a28 a2a-a30 a32 a35 a38-a39 a3c a3e-a42 a47-a48 a4b-a4d a51 a5c a66-a76 a81-a83
  a85-a8d a8f-a91 a93-aa8 aaa-ab0 ab2-ab3 ab5-ab9 abc-ac5 ac7-ac9 acb-acd ad0 ae0-ae3 ae6-af1
  af9-aff b01-b03 b05-b0c b0f-b10 b13-b28 b2a-b30 b32-b33 b35-b39 b3c-b44 b47 b4d b55-b57 b5f-b63
  b66-b77 b82-b83 b85-b8a b8e-b90 b92-b95 b99-b9a b9c b9e-b9f ba3-ba4 ba8-baa bae-bb9 bbe-bc2
  bc6-bc8 bcd bd0 bd7 be6-bfa c00-c0c c0e-c10 c12-c28 c2a-c39 c3c-c44 c46-c47 c4a-c4d c55-c56
  c58-c5a c5c-c5d c60-c63 c66-c6f c77-c8c c8e-c90 c92-ca8 caa-cb3 cb5-cb9 cbc-cc4 cc6 ccc-ccd
  cd5-cd6 cdc-cde ce0-ce3 ce6-cef cf1-cf3 d00-d0c d0e-d10 d12-d44 d46-d48 d4d-d4f d54-d63 d66-d7f
  d81-d83 d85-d96 d9a-db1 db3-dbb dbd dc0-dc6 dca dcf-dd4 dd6 dd8-ddf de6-def df2-df4 e01-e3a
  e3f-e5b e81-e82 e84 e86-e8a e8c-ea3 ea5 ea7-ebd ec0-ec4 ec6 ec8-ece ed0-ed9 ede-edf f00-f47
  f49-f6c f71-f97 f99-fbc fbe-fcc fce-fda 1000-109f 10d0-1248 124a-124d 1250-1256 1258 125a-125d
  1260-1288 128a-128d 1290-12b0 12b2-12b5 12b8-12be 12c0 12c2-12c5 12c8-12d6 12d8-1310 1312-1315
  1318-135a 135d-137c 1380-1399 13a0-13f5 1400-167f 1681-169c 16a0-16f8 1700-1715 171f-1736
  1740-1753 1760-176c 176e-1770 1772-1773 1780-17dd 17e0-17e9 17f0-17f9 1800-1819 1820-1878
  1880-18aa 18b0-18f5 1900-191e 1920-192b 1930-193b 1940 1944-196d 1970-1974 1980-19ab 19b0-19c9
  19d0-19da 19de-1a1b 1a1e-1a5e 1a60-1a7c 1a7f-1a89 1a90-1a99 1aa0-1aad 1ab0-1add 1ae0-1aeb
  1b00-1b4c 1b4e-1bf3 1bfc-1c37 1c3b-1c49 1c4d-1c8a 1cc0-1cc7 1cd0-1cfa 1d00-1eff 200c-200d
  2010-2023 2027 2030-205e 20a0-20c1 20d0-20f0 2104-218b 2190-2429 2440-244a 24eb-2b73 2b76-2cf3
  2cf9-2d25 2d27 2d2d 2d30-2d67 2d70 2d7f-2d96 2da0-2da6 2da8-2dae 2db0-2db6 2db8-2dbe 2dc0-2dc6
  2dc8-2dce 2dd0-2dd6 2dd8-2dde 2de0-2e5d 2e80-2e99 2e9b-2ef2 3001-303f 3041-3096 3099-30fd
  3105-312f 3190-31e5 31f0-31ff 3248-327f 3400-a48c a490-a4c6 a4d0-a62b a641-a6f7 a700-a7db
  a7f6-a82c a830-a839 a840-a877 a880-a8c5 a8ce-a8d9 a8e0-a953 a95f-a97c a980-a9cd a9cf-a9d9
  a9de-a9fe aa00-aa36 aa40-aa4d aa50-aa59 aa5c-aac2 aadb-aaf6 ab01-ab06 ab09-ab0e ab11-ab16
  ab20-ab26 ab28-ab2e ab30-ab6b abc0-abed abf0-abf9 d7b0-d7c6 d7cb-d7fb fa0e-fa29 fb1e fbb2-fdcf
  fdfd-fdff fe20-fe2f fe45-fe46 fe73 10000-1000b 1000d-10026 10028-1003a 1003c-1003d 1003f-1004d
  10050-1005d 10080-100fa 10100-10102 10107-10133 10137-1018e 10190-1019c 101a0 101d0-101fd
  10280-1029c 102a0-102d0 102e0-102fb 10300-10323 1032d-1034a 10350-1037a 10380-1039d 1039f-103c3
  103c8-103d5 10428-1049d 104a0-104a9 104d8-104fb 10500-10527 10530-10563 1056f 10597-105a1
  105a3-105b1 105b3-105b9 105bb-105bc 105c0-105f3 10600-10736 10740-10755 10760-10767 10780
  10800-10805 10808 1080a-10835 10837-10838 1083c 1083f-10855 10857-1089e 108a7-108af 108e0-108f2
  108f4-108f5 108fb-1091b 1091f-10939 1093f-10959 10980-109b7 109bc-109cf 109d2-10a03 10a05-10a06
  10a0c-10a13 10a15-10a17 10a19-10a35 10a38-10a3a 10a3f-10a48 10a50-10a58 10a60-10a9f 10ac0-10ae6
  10aeb-10af6 10b00-10b35 10b39-10b55 10b58-10b72 10b78-10b91 10b99-10b9c 10ba9-10baf 10c00-10c48
  10cc0-10cf2 10cfa-10d27 10d30-10d39 10d40-10d4f 10d69-10d85 10d8e-10d8f 10e60-10e7e 10e80-10ea9
  10eab-10ead 10eb0-10eb1 10ec2-10ec7 10ed0-10ed8 10efa-10f27 10f30-10f59 10f70-10f89 10fb0-10fcb
  10fe0-10ff6 11000-1104d 11052-11075 1107f-110bc 110be-110c2 110d0-110e8 110f0-110f9 11100-11134
  11136-11147 11150-11176 11180-111df 111e1-111f4 11200-11211 11213-11241 11280-11286 11288
  1128a-1128d 1128f-1129d 1129f-112a9 112b0-112ea 112f0-112f9 11300-11303 11305-1130c 1130f-11310
  11313-11328 1132a-11330 11332-11333 11335-11339 1133b-11344 11347-11348 1134d 11350 11357
  1135d-11363 11366-1136c 11370-11374 11380-11389 1138b 11390-113b5 113b7-113c0 113c2 113c9-113ca
  113cc-113d5 113d7-113d8 113e1-113e2 11400-1145b 1145d-11461 11480-114c7 114d0-114d9 11580-115b5
  115b8-115dd 11600-11644 11650-11659 11660-1166c 11680-116b9 116c0-116c9 116d0-116e3 11700-1171a
  1171d-1172b 11730-11746 11800-1183b 118c0-118f2 118ff-11906 11909 1190c-11913 11915-11916
  11918-11935 11937 1193b-11946 11950-11959 119a0-119a7 119aa-119d7 119da-119e4 11a00-11a47
  11a50-11aa2 11ab0-11af8 11b00-11b09 11b60-11b67 11bc0-11be1 11bf0-11bf9 11c00-11c08 11c0a-11c36
  11c38-11c45 11c50-11c6c 11c70-11c8f 11c92-11ca7 11ca9-11cb6 11d00-11d06 11d08-11d09 11d0b-11d36
  11d3a 11d3c-11d3d 11d3f-11d47 11d50-11d59 11d60-11d65 11d67-11d68 11d6a-11d8e 11d90-11d91
  11d93-11d98 11da0-11da9 11db0-11ddb 11de0-11de9 11ee0-11ef8 11f00-11f10 11f12-11f3a 11f3e-11f5a
  11fb0 11fc0-11ff1 11fff-12399 12400-1246e 12470-12474 12480-12543 12f90-12ff2 13000-1342f
  13440-13455 13460-143fa 14400-14646 16100-16139 16800-16a38 16a40-16a5e 16a60-16a69 16a6e-16abe
  16ac0-16ac9 16ad0-16aed 16af0-16af5 16b00-16b45 16b50-16b59 16b5b-16b61 16b63-16b77 16b7d-16b8f
  16d40-16d79 16e60-16e9a 16ebb-16ed3 16f00-16f4a 16f4f-16f87 16f8f-16f9f 16fe0-16fe4 16ff0-16ff6
  17000-18cd5 18cff-18d1e 18d80-18df2 1aff0-1aff3 1aff5-1affb 1affd-1affe 1b000-1b122 1b132
  1b150-1b152 1b155 1b164-1b167 1b170-1b2fb 1bc00-1bc6a 1bc70-1bc7c 1bc80-1bc88 1bc90-1bc99
  1bc9c-1bc9f 1cc00-1ccfc 1cd00-1ceb3 1ceba-1ced0 1cee0-1cef0 1cf00-1cf2d 1cf30-1cf46 1cf50-1cfc3
  1d000-1d0f5 1d100-1d126 1d129-1d1ea 1d200-1d245 1d2c0-1d2d3 1d2e0-1d2f3 1d300-1d356 1d360-1d378
  1d800-1da8b 1da9b-1da9f 1daa1-1daaf 1df00-1df1e 1df25-1df2a 1e000-1e006 1e008-1e018 1e01b-1e021
  1e023-1e024 1e026-1e02a 1e08f 1e100-1e12c 1e130-1e13d 1e140-1e149 1e14e-1e14f 1e290-1e2ae
  1e2c0-1e2f9 1e2ff 1e4d0-1e4f9 1e5d0-1e5fa 1e5ff 1e6c0-1e6de 1e6e0-1e6f5 1e6fe-1e6ff 1e7e0-1e7e6
  1e7e8-1e7eb 1e7ed-1e7ee 1e7f0-1e7fe 1e800-1e8c4 1e8c7-1e8d6 1e922-1e94b 1e950-1e959 1e95e-1e95f
  1ec71-1ecb4 1ed01-1ed3d 1eef0-1eef1 1f000-1f02b 1f030-1f093 1f0a0-1f0ae 1f0b1-1f0bf 1f0c1-1f0cf
  1f0d1-1f0f5 1f10b-1f1ad 1f1e6-1f1ff 1f260-1f265 1f300-1f6d8 1f6dc-1f6ec 1f6f0-1f6fc 1f700-1f7d9
  1f7e0-1f7eb 1f7f0 1f800-1f80b 1f810-1f847 1f850-1f859 1f860-1f887 1f890-1f8ad 1f8b0-1f8bb
  1f8c0-1f8c1 1f8d0-1f8d8 1f900-1fa57 1fa60-1fa6d 1fa70-1fa7c 1fa80-1fa8a 1fa8e-1fac6 1fac8
  1facd-1fadc 1fadf-1faea 1faef-1faf8 1fb00-1fb92 1fb94-1fbfa 20000-2a6df 2a700-2b81d 2b820-2cead
  2ceb0-2ebe0 2ebf0-2ee5d 30000-3134a 31350-33479"

def foldTable : HashMap Nat (List Nat) := Table.mapping folds
def silentTable : List Table.Interval := Table.intervals silent
def plainTable : List Table.Interval := Table.intervals plain

/-- What a character without parts stands for; none if it is not allowed. -/
def foldPart? (n : Nat) : Option (List Nat) :=
  match foldTable[n]? with
  | some ns => some ns
  | none =>
    if silentTable.any (·.holds n) then some []
    else if plainTable.any (·.holds n) then some [n]
    else none

/-- The text that stands for all that look like this one; none if a character is not allowed. -/
def fold? (cs : List Char) : Option (List Char) := do
  let parts ← (cs.flatMap fun c => decompose c.toNat).mapM foldPart?
  return (normalize parts.flatten).map Char.ofNat

end CompilingProxy.Text
