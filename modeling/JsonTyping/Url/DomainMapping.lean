import JsonTyping.Text.Spans

/-!
# Characters of domain names

Each character of a domain name is valid as it stands, is written in another way, is left out, or
may not be used at all. The table is that of the library `idna`, as `url` 2.5 calls it, with the
data of Unicode 15.1.
-/

namespace JsonTyping.Url

/-- What becomes of the characters of a domain name, by the tag of their span: `v` valid; `x` not
allowed; `i` left out; `m` moved up (or down, after `-`) by the detail; `a` capital and small letter
by turns, of which the small one is written; `s` written as the code points of the detail. -/
def domainSpans : Text.Spans := Text.Spans.ofRows [
  "65v 26m32 37v 32x m-128 7v s32.776 v m-73 2v i v s32.772 2v 2m-128 s32.769 m775 2v s32.807",
  "m-136 m-75 v s49.8260.52 s49.8260.50 s51.8260.52 v 23m32 v 7m32 33v 48a s105.775 v s105.106",
  "s105.106 4a v 6a s108.183 s108.183 8a s700.110 46a m-121 6a m-268 v m210 4a m206 m1 v 2m205 m1",
  "2v m79 m202 m203 m1 v m205 m207 v m211 m209 m1 3v m211 m213 v m214 6a m218 m1 v m218 2v m1 v",
  "m218 m1 v 2m217 4a m219 m1 3v m1 7v s100.382 s100.382 s100.382 s108.106 s108.106 s108.106",
  "s110.106 s110.106 s110.106 16a v 18a v s100.122 s100.122 s100.122 m1 v m-97 m-56 40a m-130 v",
  "18a 6v m10795 m1 v m-163 m10792 2v m1 v m-195 m69 m71 10a 96v m-584 m-75 m-584 m-577 m-59 m-58",
  "m-53 m-576 m-575 31v s32.774 s32.775 s32.778 s32.808 s32.771 s32.779 2v m-125 m-629 m-623",
  "m-619 m-79 91v 2m-64 v m-48 s776.769 m116 9v i 32v 4a m-187 v m1 v 2x s32.953 3v m-835 m116 4x",
  "s32.769 s32.776.769 m38 m-720 3m37 x m64 x 2m63 v 17m32 x 9m32 35v m8 m-30 m-25 m-13 m-6 m-9",
  "m-15 m-22 v 24a m-54 m-48 m-47 v m-60 m-64 v m1 v m-54 m1 2v 3m-130 16m80 32m32 48v 34a 8v 54a",
  "x 14a v 96a x 38m48 2x 46v s1381.1410 3v 2x 3v x 55v 8x 27v 4x 6v 17x 22v x 88v s1575.1652",
  "s1608.1652 s1735.1652 s1610.1652 100v x 48v 2x 59v 2x 101v 14x 59v 2x 49v 2x 15v x 28v 2x v x",
  "11v 5x 31v 9x 74v x 117v s2325.2364 s2326.2364 s2327.2364 s2332.2364 s2337.2364 s2338.2364",
  "s2347.2364 s2351.2364 36v x 8v 2x 2v 2x 22v x 7v x v 3x 4v 2x 9v 2x 2v 2x 4v 8x v 4x",
  "s2465.2492 s2466.2492 x s2479.2492 4v 2x 25v 2x 3v x 6v 4x 2v 2x 22v x 7v x v s2610.2620 x v",
  "s2616.2620 x 2v 2x v x 5v 4x 2v 2x 3v 3x v 7x s2582.2620 s2583.2620 s2588.2620 v x s2603.2620",
  "7x 17v 10x 3v x 9v x 3v x 22v x 7v x 2v x 5v 2x 10v x 3v x 3v 2x v 15x 4v 2x 12v 7x 7v x 3v x",
  "8v 2x 2v 2x 22v x 7v x 2v x 5v 2x 9v 2x 2v 2x 3v 7x 3v 4x s2849.2876 s2850.2876 x 5v 2x 18v",
  "10x 2v x 6v 3x 3v x 4v 3x 2v x v x 2v 3x 2v 3x 3v 3x 12v 4x 5v 3x 3v x 4v 2x v 6x v 14x 21v 5x",
  "13v x 3v x 23v x 16v 2x 9v x 3v x 4v 7x 2v x 3v 2x v 2x 4v 2x 10v 7x 22v x 3v x 23v x 10v x 5v",
  "2x 9v x 3v x 4v 7x 2v 6x 2v x 4v 2x 10v x 3v 12x 13v x 3v x 51v x 3v x 6v 4x 16v 2x 26v x 3v x",
  "18v 3x 24v x 9v x v 2x 7v 3x v 4x 6v x v x 8v 6x 10v 2x 3v 12x 50v s3661.3634 7v 4x 29v 37x 2v",
  "x v x 5v x 24v x v x 12v s3789.3762 10v 2x 5v x v x 7v x 10v 2x s3755.3737 s3755.3745 2v 32x",
  "12v m-1 54v s3906.4023 4v x 4v s3916.4023 4v s3921.4023 4v s3926.4023 4v s3931.4023 12v",
  "s3904.4021 3v 4x 2v s3953.3954 v s3953.3956 s4018.3968 s4018.3953.3968 s4019.3968",
  "s4019.3953.3968 7v s3953.3968 17v s3986.4023 4v x 4v s3996.4023 4v s4001.4023 4v s4006.4023 4v",
  "s4011.4023 12v s3984.4021 3v x 15v x 13v 37x 160v 39x m7264 5x m7264 2x 44v m-32 98v 2x 232v x",
  "4v 2x 7v x v x 4v 2x 41v x 4v 2x 33v x 4v 2x 7v x v x 4v 2x 15v x 57v x 4v 2x 67v 2x 32v 3x",
  "26v 6x 86v 2x 6m-8 2x 640v x 28v 3x 89v 7x 22v 9x 24v 9x 20v 12x 13v x 3v x 2v 12x 52v 2x 40v",
  "2x 10v 6x 10v 6x 6v x 4v 3i x i 10v 6x 89v 7x 43v 5x 70v 10x 31v x 12v 4x 12v 4x v 3x 42v 2x",
  "5v 11x 44v 4x 26v 6x 11v 3x 62v 2x 65v x 29v 2x 11v 6x 10v 6x 14v 2x 31v 49x 77v 3x 47v x 116v",
  "8x 60v 3x 15v 3x 51v m-6222 m-6221 m-6212 2m-6210 m-6211 m-6204 m-6180 m35267 7x 43m-3008 2x",
  "3m-3008 8v 8x 43v 5x 44v m-7371 m-7239 m-7372 v 2m-7372 m-6997 8m-7372 v m-7373 m-6938 m-7374",
  "m-7373 2m-7372 m-7371 m-7394 2m-6900 m-68 m-7397 2m-7396 m-6897 2m-6896 m-7398 v m-7396 m-7395",
  "m-7174 m-7395 m-6911 2m-62 m-7398 2m-7395 m-60 m-6891 m-7397 m-55 3m-6571 2m-6554 m-7417",
  "m-7409 2m-7407 2m-6580 m-6567 2m-6563 13v m-6459 34v m-6985 m-7481 m-6984 m-7342 m-6979 m-7482",
  "m-6978 m-6977 m-6974 3m-6972 m-44 m-6923 m-6972 m-37 m-6924 m-6971 m-6973 4m-6972 m-6970",
  "2m-6961 m-7178 2m-6957 m-156 2m-6958 m-7489 3m-6956 m-6663 64v 150a 4v s97.702 m-58 2v m-7615",
  "v 96a 8v 8m-8 6v 2x 6m-8 2x 8v 8m-8 8v 8m-8 6v 2x 6m-8 2x 8v x m-8 x m-8 x m-8 x m-8 8v 8m-8 v",
  "m-7109 v m-7110 v m-7111 v m-7112 v m-7085 v m-7086 v m-7087 2x s7936.953 s7937.953 s7938.953",
  "s7939.953 s7940.953 s7941.953 s7942.953 s7943.953 s7936.953 s7937.953 s7938.953 s7939.953",
  "s7940.953 s7941.953 s7942.953 s7943.953 s7968.953 s7969.953 s7970.953 s7971.953 s7972.953",
  "s7973.953 s7974.953 s7975.953 s7968.953 s7969.953 s7970.953 s7971.953 s7972.953 s7973.953",
  "s7974.953 s7975.953 s8032.953 s8033.953 s8034.953 s8035.953 s8036.953 s8037.953 s8038.953",
  "s8039.953 s8032.953 s8033.953 s8034.953 s8035.953 s8036.953 s8037.953 s8038.953 s8039.953 2v",
  "s8048.953 s945.953 s940.953 x v s8118.953 2m-8 m-74 m-7183 s945.953 s32.787 m-7173 s32.787",
  "s32.834 s32.776.834 s8052.953 s951.953 s942.953 x v s8134.953 m-86 m-7196 m-86 m-7197 s951.953",
  "s32.787.768 s32.787.769 s32.787.834 3v m-7235 2x 2v 2m-8 m-100 m-7212 x s32.788.768",
  "s32.788.769 s32.788.834 3v m-7219 4v 2m-8 m-112 m-7198 m-7 s32.776.768 s32.776.769 m-8079 2x",
  "s8060.953 s969.953 s974.953 x v s8182.953 m-128 m-7213 m-126 m-7213 s969.953 s32.769 s32.788 x",
  "m-8160 m-8161 m-8162 m-8163 m-8164 m-8165 m-8166 m-8167 m-8168 m-8169 m-8170 i 2v 2x v m-1 5v",
  "s32.819 12v 3x v 7x m-8207 3v s8242.8242 s8242.8242.8242 v s8245.8245 s8245.8245.8245 4v",
  "s33.33 v s32.773 8v s63.63 s63.33 s33.63 13v s8242.8242.8242.8242 7v m-8255 i 3x i 11x m-8256",
  "m-8200 2x 6m-8256 m-8271 m407 m-8255 2m-8277 m-8209 10m-8272 m-8287 m391 m-8271 2m-8293 x",
  "m-8239 m-8236 m-8227 m-8219 m-7739 m-8237 4m-8235 m-8234 2m-8232 3x 8v s114.115 24v 15x 33v",
  "15x s97.47.99 s97.47.115 m-8351 s176.99 v s99.47.111 s99.47.117 m-7852 v s176.102 2m-8355",
  "m-8356 m-8357 m-8358 m-8168 m-8359 m-8360 m-8358 m-8359 v m-8359 s110.111 2v 3m-8361 m-8362",
  "m-8363 2v s115.109 s116.101.108 s116.109 v m-8362 v m-7517 v m-8366 v m-8383 m-8262 2m-8394 v",
  "m-8394 2m-8395 x m-8390 m-8389 4m-7013 m-8400 v s102.97.120 m-7548 m-7562 m-7563 m-7551 m209",
  "4v m-8417 2m-8418 2m-8415 6v s49.8260.55 s49.8260.57 s49.8260.49.48 s49.8260.51 s50.8260.51",
  "s49.8260.53 s50.8260.53 s51.8260.53 s52.8260.53 s49.8260.54 s53.8260.54 s49.8260.56",
  "s51.8260.56 s53.8260.56 s55.8260.56 s49.8260 m-8439 s105.105 s105.105.105 s105.118 m-8430",
  "s118.105 s118.105.105 s118.105.105.105 s105.120 m-8433 s120.105 s120.105.105 m-8448 2m-8458",
  "m-8450 m-8455 s105.105 s105.105.105 s105.118 m-8446 s118.105 s118.105.105 s118.105.105.105",
  "s105.120 m-8449 s120.105 s120.105.105 m-8464 2m-8474 m-8466 3v x 5v s48.8260.51 2v 4x 156v",
  "s8747.8747 s8747.8747.8747 v s8750.8750 s8750.8750.8750 248v 2m3295 252v 25x 11v 21x 9m-9263",
  "s49.48 s49.49 s49.50 s49.51 s49.52 s49.53 s49.54 s49.55 s49.56 s49.57 s50.48 s40.49.41",
  "s40.50.41 s40.51.41 s40.52.41 s40.53.41 s40.54.41 s40.55.41 s40.56.41 s40.57.41 s40.49.48.41",
  "s40.49.49.41 s40.49.50.41 s40.49.51.41 s40.49.52.41 s40.49.53.41 s40.49.54.41 s40.49.55.41",
  "s40.49.56.41 s40.49.57.41 s40.50.48.41 20x s40.97.41 s40.98.41 s40.99.41 s40.100.41 s40.101.41",
  "s40.102.41 s40.103.41 s40.104.41 s40.105.41 s40.106.41 s40.107.41 s40.108.41 s40.109.41",
  "s40.110.41 s40.111.41 s40.112.41 s40.113.41 s40.114.41 s40.115.41 s40.116.41 s40.117.41",
  "s40.118.41 s40.119.41 s40.120.41 s40.121.41 s40.122.41 26m-9301 26m-9327 m-9402 1313v",
  "s8747.8747.8747.8747 103v s58.58.61 s61.61 s61.61.61 101v s10973.824 151v 2x 32v x 105v 48m48",
  "48v m1 v m-10743 m-3814 m-10727 2v 6a m-10780 m-10749 m-10783 m-10782 v m1 2v m1 6v m-11282",
  "m-11271 2m-10815 100a 7v 4a 3v m1 v 5x 45v x v 5x v 2x 56v 7x m-14 v 14x 24v 9x 7v x 7v x 7v x",
  "7v x 7v x 7v x 7v x 7v x 126v 34x 26v x 4v m15662 83v m28844 12x m7936 m7975 m7988 m7996 m8021",
  "m8064 m8070 m8089 m8114 m8758 m8795 m8800 m8822 m8841 m8861 m8913 m8933 m8943 m9097 m9190",
  "m9217 m9221 m9250 m9258 m9284 m9296 m9320 m9371 m9388 m9414 m10169 m10240 m10699 m10721 m10728",
  "m10738 m10755 m10830 m11306 m11353 m11472 m11494 m11512 m11533 m11586 m11588 m11949 m11958",
  "m11969 m11981 m12096 m12103 m12107 m12223 m12232 m12244 m12251 m12311 m12327 m12344 m12423",
  "m13003 m13048 m13068 m13807 m13811 m13893 m13908 m13920 m13940 m13978 m13982 m14248 m14271",
  "m14302 m15317 m15382 m15404 m15461 m15484 m15492 m15498 m15549 m15553 m15584 m16662 m17108",
  "m17119 m17123 m17126 m17133 m17150 m17151 m17231 m17446 m17450 m17788 m17797 m17846 m17852",
  "m17860 m17867 m17957 m17963 m18190 m18196 m18244 m18260 m18306 m18542 m18548 m18564 m18890",
  "m19015 m19020 m19201 m19287 m19332 m19709 m19841 m20414 m20440 m20496 m20546 m20613 m20623",
  "m20628 m20660 m20735 m20744 m21089 m21095 m21103 m21111 m21126 m21140 m21143 m21221 m21224",
  "m21229 m22209 m22238 m22706 m22717 m22739 m23021 m23033 m23103 m23148 m23714 m23728 m23742",
  "m23776 m23812 m24010 m24021 m24087 m24334 m24364 m24572 m24592 m24596 m24815 m24998 m25122",
  "m25127 m25131 m26064 m26072 m26227 m26380 m26382 m26428 m26532 m26544 m26547 m26553 m26650",
  "m26683 m26688 m26701 m26867 m26917 m26920 m27102 m27104 m27122 m27373 m27420 m27426 m27495",
  "m27504 m27506 m27515 m27544 m27938 m28337 m28346 m28383 m28404 m28411 m28420 m28423 m28462",
  "m28465 m28481 m28485 m28497 m28523 m28537 m28544 m28602 m28616 m28619 42x m-12256 v m-12244",
  "51v m-36 v m8969 2m8971 5v x 86v 2x 2v s32.12441 s32.12442 2v s12424.12426 95v s12467.12488 5x",
  "43v x 2m-8241 m-8073 m-8242 2m-8073 3m-8244 6m-8074 m-8230 3m-8251 m-8227 10m-8252 21m-8174 x",
  "2m-8273 2m-8096 m-8093 m-8092 m-8088 m-8085 m-8084 m-8274 m-8082 m-8081 2m-8276 m-8275 2m-8274",
  "m-8271 m-8270 5m-8269 m-8267 m-8264 m-8255 m-8249 m-8245 2m-8081 3m-8237 2m-8195 m-8193",
  "2m-8185 m-8184 m-8175 m-8173 x 2v m7278 m7417 m7285 m9542 m7284 m7318 m7283 m17305 m7359 m7294",
  "m7269 m10124 m9618 m7451 68v 12x 16v s40.4352.41 s40.4354.41 s40.4355.41 s40.4357.41",
  "s40.4358.41 s40.4359.41 s40.4361.41 s40.4363.41 s40.4364.41 s40.4366.41 s40.4367.41",
  "s40.4368.41 s40.4369.41 s40.4370.41 s40.44032.41 s40.45208.41 s40.45796.41 s40.46972.41",
  "s40.47560.41 s40.48148.41 s40.49324.41 s40.50500.41 s40.51088.41 s40.52264.41 s40.52852.41",
  "s40.53440.41 s40.54028.41 s40.54616.41 s40.51452.41 s40.50724.51204.41 s40.50724.54980.41 x",
  "s40.19968.41 s40.20108.41 s40.19977.41 s40.22235.41 s40.20116.41 s40.20845.41 s40.19971.41",
  "s40.20843.41 s40.20061.41 s40.21313.41 s40.26376.41 s40.28779.41 s40.27700.41 s40.26408.41",
  "s40.37329.41 s40.22303.41 s40.26085.41 s40.26666.41 s40.26377.41 s40.31038.41 s40.21517.41",
  "s40.29305.41 s40.36001.41 s40.31069.41 s40.21172.41 s40.20195.41 s40.21628.41 s40.23398.41",
  "s40.30435.41 s40.20225.41 s40.36039.41 s40.21332.41 s40.31085.41 s40.20241.41 s40.33258.41",
  "s40.33267.41 m8971 m11319 m13121 m18760 8v s112.116.101 s50.49 s50.50 s50.51 s50.52 s50.53",
  "s50.54 s50.55 s50.56 s50.57 s51.48 s51.49 s51.50 s51.51 s51.52 s51.53 m-8544 2m-8543 3m-8542",
  "m-8541 2m-8540 5m-8539 m31122 m32297 m32884 m34059 m34646 m35233 m36408 m37583 m38170 m39345",
  "m39932 m40519 m41106 m41693 s52280.44256 s51452.51032 m37938 v m7040 m7179 m7047 m9304 m7184",
  "m7912 m7037 m7908 m7125 m8376 m13438 m15840 m14760 m13467 m24387 m9360 m13141 m13721 m13431",
  "m18091 m8569 m16356 m23051 m18118 m8220 m18239 m17053 m9944 m24013 m7821 m8402 m14921 m25957",
  "m7280 m7927 m14528 m7014 m7048 m7013 m11071 m8523 m8338 m10477 m10427 m17463 m7252 m23065",
  "m8357 m9836 s51.54 s51.55 s51.56 s51.57 s52.48 s52.49 s52.50 s52.51 s52.52 s52.53 s52.54",
  "s52.55 s52.56 s52.57 s53.48 s49.26376 s50.26376 s51.26376 s52.26376 s53.26376 s54.26376",
  "s55.26376 s56.26376 s57.26376 s49.48.26376 s49.49.26376 s49.50.26376 s104.103 s101.114.103",
  "s101.118 s108.116.100 m-558 m-557 m-556 m-555 2m-554 m-553 m-552 m-551 m-550 m-549 m-548 m-547",
  "m-546 m-545 m-544 m-543 m-541 m-540 m-539 6m-538 m-536 m-534 m-532 m-530 5m-528 m-527 m-526",
  "6m-525 4m-524 s20196.21644 s12450.12497.12540.12488 s12450.12523.12501.12449",
  "s12450.12531.12506.12450 s12450.12540.12523 s12452.12491.12531.12464 s12452.12531.12481",
  "s12454.12457.12531 s12456.12473.12463.12540.12489 s12456.12540.12459.12540 s12458.12531.12473",
  "s12458.12540.12512 s12459.12452.12522 s12459.12521.12483.12488 s12459.12525.12522.12540",
  "s12460.12525.12531 s12460.12531.12510 s12462.12460 s12462.12491.12540 s12461.12517.12522.12540",
  "s12462.12523.12480.12540 s12461.12525 s12461.12525.12464.12521.12512",
  "s12461.12525.12513.12540.12488.12523 s12461.12525.12527.12483.12488 s12464.12521.12512",
  "s12464.12521.12512.12488.12531 s12463.12523.12476.12452.12525 s12463.12525.12540.12493",
  "s12465.12540.12473 s12467.12523.12490 s12467.12540.12509 s12469.12452.12463.12523",
  "s12469.12531.12481.12540.12512 s12471.12522.12531.12464 s12475.12531.12481 s12475.12531.12488",
  "s12480.12540.12473 s12487.12471 s12489.12523 s12488.12531 s12490.12494 s12494.12483.12488",
  "s12495.12452.12484 s12497.12540.12475.12531.12488 s12497.12540.12484 s12496.12540.12524.12523",
  "s12500.12450.12473.12488.12523 s12500.12463.12523 s12500.12467 s12499.12523",
  "s12501.12449.12521.12483.12489 s12501.12451.12540.12488 s12502.12483.12471.12455.12523",
  "s12501.12521.12531 s12504.12463.12479.12540.12523 s12506.12477 s12506.12491.12498",
  "s12504.12523.12484 s12506.12531.12473 s12506.12540.12472 s12505.12540.12479",
  "s12509.12452.12531.12488 s12508.12523.12488 s12507.12531 s12509.12531.12489 s12507.12540.12523",
  "s12507.12540.12531 s12510.12452.12463.12525 s12510.12452.12523 s12510.12483.12495",
  "s12510.12523.12463 s12510.12531.12471.12519.12531 s12511.12463.12525.12531 s12511.12522",
  "s12511.12522.12496.12540.12523 s12513.12460 s12513.12460.12488.12531 s12513.12540.12488.12523",
  "s12516.12540.12489 s12516.12540.12523 s12518.12450.12531 s12522.12483.12488.12523 s12522.12521",
  "s12523.12500.12540 s12523.12540.12502.12523 s12524.12512 s12524.12531.12488.12466.12531",
  "s12527.12483.12488 s48.28857 s49.28857 s50.28857 s51.28857 s52.28857 s53.28857 s54.28857",
  "s55.28857 s56.28857 s57.28857 s49.48.28857 s49.49.28857 s49.50.28857 s49.51.28857 s49.52.28857",
  "s49.53.28857 s49.54.28857 s49.55.28857 s49.56.28857 s49.57.28857 s50.48.28857 s50.49.28857",
  "s50.50.28857 s50.51.28857 s50.52.28857 s104.112.97 s100.97 s97.117 s98.97.114 s111.118 s112.99",
  "s100.109 s100.109.50 s100.109.51 s105.117 s24179.25104 s26157.21644 s22823.27491 s26126.27835",
  "s26666.24335.20250.31038 s112.97 s110.97 s956.97 s109.97 s107.97 s107.98 s109.98 s103.98",
  "s99.97.108 s107.99.97.108 s112.102 s110.102 s956.102 s956.103 s109.103 s107.103 s104.122",
  "s107.104.122 s109.104.122 s103.104.122 s116.104.122 s956.108 s109.108 s100.108 s107.108",
  "s102.109 s110.109 s956.109 s109.109 s99.109 s107.109 s109.109.50 s99.109.50 s109.50",
  "s107.109.50 s109.109.51 s99.109.51 s109.51 s107.109.51 s109.8725.115 s109.8725.115.50 s112.97",
  "s107.112.97 s109.112.97 s103.112.97 s114.97.100 s114.97.100.8725.115 s114.97.100.8725.115.50",
  "s112.115 s110.115 s956.115 s109.115 s112.118 s110.118 s956.118 s109.118 s107.118 s109.118",
  "s112.119 s110.119 s956.119 s109.119 s107.119 s109.119 s107.969 s109.969 x s98.113 s99.99",
  "s99.100 s99.8725.107.103 x s100.98 s103.121 s104.97 s104.112 s105.110 s107.107 s107.109",
  "s107.116 s108.109 s108.110 s108.111.103 s108.120 s109.98 s109.105.108 s109.111.108 s112.104 x",
  "s112.112.109 s112.114 s115.114 s115.118 s119.98 s118.8725.109 s97.8725.109 s49.26085 s50.26085",
  "s51.26085 s52.26085 s53.26085 s54.26085 s55.26085 s56.26085 s57.26085 s49.48.26085",
  "s49.49.26085 s49.50.26085 s49.51.26085 s49.52.26085 s49.53.26085 s49.54.26085 s49.55.26085",
  "s49.56.26085 s49.57.26085 s50.48.26085 s50.49.26085 s50.50.26085 s50.51.26085 s50.52.26085",
  "s50.53.26085 s50.54.26085 s50.55.26085 s50.56.26085 s50.57.26085 s51.48.26085 s51.49.26085",
  "s103.97.108 28813v 3x 55v 9x 348v 20x 46a 18v 28a m-41554 m-41553 90v 8x 34v 14a 2v 62a m-1 8v",
  "4a m-35332 10a 3v m1 v m-42280 2v 4a 2v 20a m-42308 m-42319 m-42315 m-42305 m-42308 v m-42258",
  "m-42282 m-42261 m928 16a m-48 m-42307 m-35384 4a 5x m1 v x v x v 4a 24x m-42895 m-42893",
  "m-42883 m1 2v m-42705 m-42662 51v 3x 10v 6x 56v 8x 70v 8x 12v 6x 116v 11x 30v 3x 78v x 11v 4x",
  "33v x 55v 9x 14v 2x 10v 2x 103v 24x 28v 10x 6v 2x 6v 2x 6v 9x 7v x 7v x 44v m-1077 m-38",
  "m-43251 m-13 9v m-43228 2v 4x 80m-38864 46v 2x 10v 6x 11172v 12x 23v 4x 49v 8452x m-27832",
  "m-37389 m-27192 m-27707 m-35379 m-43731 m-42273 m-22891 m-22892 m-40888 m-26425 m-41860",
  "m-40900 m-38679 m-33445 m-31114 m-29393 m-29015 m-28698 m-26756 m-36626 m-35834 m-34877",
  "m-34105 m-29915 m-26543 m-24361 m-43673 m-42407 m-36377 m-34563 m-29426 m-23298 m-39889",
  "m-35127 m-29526 m-28608 m-38492 m-30542 m-28936 m-39518 m-37394 m-35776 m-34351 m-26718",
  "m-43431 m-42871 m-42577 m-37996 m-36446 m-34594 m-33356 m-31027 m-29487 m-29402 m-27464",
  "m-25094 m-24010 m-23360 m-32943 m-32701 m-31645 m-30069 m-26171 m-23233 m-28267 m-41059",
  "m-39487 m-31972 m-30919 m-34532 m-32893 m-27782 m-25170 m-41074 m-40169 m-36665 m-35699",
  "m-35391 m-31776 m-31513 m-25350 m-42624 m-30920 m-42872 m-42889 m-32570 m-31641 m-30055",
  "m-25316 m-28122 m-38540 m-36698 m-28255 m-43813 m-40312 m-39246 m-34266 m-33778 m-42572",
  "m-32873 m-43430 m-39357 m-43866 m-35996 m-37873 m-31816 m-42408 m-41230 m-33388 m-29989",
  "m-28357 m-36278 m-27073 m-36074 m-38517 m-30351 m-38357 m-33809 m-43721 m-43023 m-42928",
  "m-37113 m-31892 m-30477 m-28331 m-26543 m-42634 m-42302 m-40974 m-39574 m-37822 m-35206",
  "m-32859 m-25561 m-24349 m-23281 m-23227 m-42735 m-37573 m-36373 m-27179 m-39706 m-38911",
  "m-38800 m-38135 m-35439 m-34890 m-34059 m-32715 m-31650 m-31016 m-27250 m-29867 m-26999",
  "m-26193 m-42885 m-42746 m-42209 m-35031 m-28894 m-28407 m-39641 m-39342 m-38441 m-36343",
  "m-32104 m-34354 m-43716 m-41648 m-40387 m-39921 m-39312 m-34299 m-34117 m-31253 m-31082",
  "m-26493 m-25276 m-25195 m-24988 m-43562 m-32776 m-26627 m-25344 m-39128 m-43828 m-43233",
  "m-40398 m-40318 m-37925 m-36797 m-34802 m-33663 m-29894 m-26951 m-23095 m-37693 m-25496",
  "m-42814 m-37453 m-37334 m-35977 m-35631 m-34243 m-33908 m-33123 m-31935 m-24946 m-43108",
  "m-38820 m-25435 m-43433 m-40124 m-35820 m-27309 m-39501 m-39061 m-37315 m-34388 m-25430",
  "m-42932 m-42447 m-40314 m-37837 m-37523 m-37178 m-36094 m-34270 m-33795 m-31341 m-28952",
  "m-28935 m-26653 m-25352 m-42668 m-35634 m-42448 m-34846 m-34135 m-29686 m-25422 m-23963",
  "m-23380 m-37469 m-35882 m-30734 m-32556 m-32472 m-32103 m-34618 m-35170 m-28324 m-43837",
  "m-30408 m-42949 m-43001 m-39771 m-38703 m-32045 m-40575 m-36071 m-37714 m-27340 m-29116",
  "m-25532 m-28799 m-39736 m-43212 m-42061 2v m-41398 v m-37790 2v m-43063 m-34540 m-33613",
  "m-32988 m-32955 m-32949 m-32908 m-25286 m-32095 m-31329 v m-29710 v m-28458 2v m-27117 m-26921",
  "3v m-24891 m-24879 m-24836 m-23673 m-26960 m-25464 m-43650 m-43338 m-43237 m-42858 m-42832",
  "m-42724 m-42137 m-42033 m-41936 m-41465 m-41362 m-40407 m-40398 m-39337 m-39126 m-39089",
  "m-38990 m-38130 m-37984 m-37810 m-37311 m-36046 m-35884 m-35621 m-35034 m-34846 m-34344",
  "m-33210 m-33038 m-33028 m-33030 m-33023 m-33018 m-33012 2m-32965 m-32788 m-32724 m-32406",
  "m-31843 m-31823 m-31768 m-31464 m-31318 m-30831 m-30692 m-30693 m-30216 m-29008 m-28875",
  "m-28513 m-28458 m-28049 m-27997 m-27312 m-27183 m-25477 m-25194 m-25135 m-39414 m84098 m-30805",
  "2x m-44106 m-43196 m-43274 m-43763 m-43311 m-43253 m-42927 m-42877 m-42203 m-42276 m-42209",
  "m-42137 m-41506 m-41418 m-41274 m-41259 m-40990 m-40793 m-39856 m-39850 m-39707 m-39640",
  "m-39342 m-39225 m-39296 m-39163 m-39210 m-39065 m-39000 m-38601 m-38514 m-38461 m-38202",
  "m-37917 m-37755 m-37752 m-37694 m-36636 m-36572 m-36182 m-35773 m-35790 m-35704 m-35453",
  "m-35118 m-33526 m-34921 m-34800 m-34678 m-34352 m-34204 m-34152 m-33927 m-33926 m-33756",
  "m-33740 m-33716 m-33631 m-33642 m-33247 m-32763 m-32493 m-32307 m-32084 m-31932 m-31603",
  "m-31405 m-30561 m-30405 m-29500 m-29045 m-28977 m-28962 m-28666 m-28610 m-28656 m-28603",
  "m-28607 m-28625 m-28550 m-28470 m-28089 m-27530 m-27217 m-26923 m-26703 m-25674 m-25572",
  "m-25458 m-25326 m-25291 m-25280 m-25233 m-24507 m-23346 m77179 m77172 m80132 m-48949 m-47803",
  "m-47771 m87924 m90618 m99324 m-23445 m-23371 38x s102.102 s102.105 s102.108 s102.102.105",
  "s102.102.108 s115.116 s115.116 12x s1396.1398 s1396.1381 s1396.1387 s1406.1398 s1396.1389 5x",
  "s1497.1460 v s1522.1463 m-62782 m-62801 2m-62799 3m-62793 m-62783 m-62782 m-64254 s1513.1473",
  "s1513.1474 s1513.1468.1473 s1513.1468.1474 s1488.1463 s1488.1464 s1488.1468 s1489.1468",
  "s1490.1468 s1491.1468 s1492.1468 s1493.1468 s1494.1468 x s1496.1468 s1497.1468 s1498.1468",
  "s1499.1468 s1500.1468 x s1502.1468 x s1504.1468 s1505.1468 x s1507.1468 s1508.1468 x",
  "s1510.1468 s1511.1468 s1512.1468 s1513.1468 s1514.1468 s1493.1465 s1489.1471 s1499.1471",
  "s1508.1471 s1488.1500 m-62687 m-62688 m-62679 m-62680 m-62681 m-62682 m-62680 m-62681 m-62682",
  "m-62683 m-62682 m-62683 m-62684 m-62685 m-62692 m-62693 m-62694 m-62695 m-62691 m-62692",
  "m-62693 m-62694 m-62701 m-62702 m-62703 m-62704 m-62662 m-62663 m-62664 m-62665 m-62664",
  "m-62665 m-62666 m-62667 m-62702 m-62703 m-62704 m-62705 m-62707 m-62708 m-62709 m-62710",
  "m-62708 m-62709 m-62710 2m-62711 m-62712 m-62713 m-62714 m-62709 m-62710 m-62712 m-62713",
  "m-62712 m-62713 m-62720 m-62721 m-62706 m-62707 m-62715 m-62716 m-62693 m-62694 m-62695",
  "m-62696 m-62691 m-62692 m-62693 m-62694 m-62691 m-62692 m-62693 m-62694 m-62697 m-62698",
  "m-62699 m-62700 m-62692 2m-62693 m-62694 m-62695 m-62696 m-62692 2m-62693 m-62694 m-62695",
  "m-62696 m-62700 m-62701 m-62702 m-62703 m-62684 2m-62685 m-62686 17v 16x m-62758 m-62759",
  "m-62760 m-62761 m-62736 m-62737 m-62739 m-62740 m-62739 m-62740 s1735.1652 m-62739 m-62740",
  "m-62747 m-62748 m-62745 m-62746 m-62740 m-62741 m-62742 m-62743 m-62879 m-62880 s1574.1575",
  "s1574.1575 s1574.1749 s1574.1749 s1574.1608 s1574.1608 s1574.1735 s1574.1735 s1574.1734",
  "s1574.1734 s1574.1736 s1574.1736 s1574.1744 s1574.1744 s1574.1744 s1574.1609 s1574.1609",
  "s1574.1609 m-62768 m-62769 m-62770 m-62771 s1574.1580 s1574.1581 s1574.1605 s1574.1609",
  "s1574.1610 s1576.1580 s1576.1581 s1576.1582 s1576.1605 s1576.1609 s1576.1610 s1578.1580",
  "s1578.1581 s1578.1582 s1578.1605 s1578.1609 s1578.1610 s1579.1580 s1579.1605 s1579.1609",
  "s1579.1610 s1580.1581 s1580.1605 s1581.1580 s1581.1605 s1582.1580 s1582.1581 s1582.1605",
  "s1587.1580 s1587.1581 s1587.1582 s1587.1605 s1589.1581 s1589.1605 s1590.1580 s1590.1581",
  "s1590.1582 s1590.1605 s1591.1581 s1591.1605 s1592.1605 s1593.1580 s1593.1605 s1594.1580",
  "s1594.1605 s1601.1580 s1601.1581 s1601.1582 s1601.1605 s1601.1609 s1601.1610 s1602.1581",
  "s1602.1605 s1602.1609 s1602.1610 s1603.1575 s1603.1580 s1603.1581 s1603.1582 s1603.1604",
  "s1603.1605 s1603.1609 s1603.1610 s1604.1580 s1604.1581 s1604.1582 s1604.1605 s1604.1609",
  "s1604.1610 s1605.1580 s1605.1581 s1605.1582 s1605.1605 s1605.1609 s1605.1610 s1606.1580",
  "s1606.1581 s1606.1582 s1606.1605 s1606.1609 s1606.1610 s1607.1580 s1607.1605 s1607.1609",
  "s1607.1610 s1610.1580 s1610.1581 s1610.1582 s1610.1605 s1610.1609 s1610.1610 s1584.1648",
  "s1585.1648 s1609.1648 s32.1612.1617 s32.1613.1617 s32.1614.1617 s32.1615.1617 s32.1616.1617",
  "s32.1617.1648 s1574.1585 s1574.1586 s1574.1605 s1574.1606 s1574.1609 s1574.1610 s1576.1585",
  "s1576.1586 s1576.1605 s1576.1606 s1576.1609 s1576.1610 s1578.1585 s1578.1586 s1578.1605",
  "s1578.1606 s1578.1609 s1578.1610 s1579.1585 s1579.1586 s1579.1605 s1579.1606 s1579.1609",
  "s1579.1610 s1601.1609 s1601.1610 s1602.1609 s1602.1610 s1603.1575 s1603.1604 s1603.1605",
  "s1603.1609 s1603.1610 s1604.1605 s1604.1609 s1604.1610 s1605.1575 s1605.1605 s1606.1585",
  "s1606.1586 s1606.1605 s1606.1606 s1606.1609 s1606.1610 s1609.1648 s1610.1585 s1610.1586",
  "s1610.1605 s1610.1606 s1610.1609 s1610.1610 s1574.1580 s1574.1581 s1574.1582 s1574.1605",
  "s1574.1607 s1576.1580 s1576.1581 s1576.1582 s1576.1605 s1576.1607 s1578.1580 s1578.1581",
  "s1578.1582 s1578.1605 s1578.1607 s1579.1605 s1580.1581 s1580.1605 s1581.1580 s1581.1605",
  "s1582.1580 s1582.1605 s1587.1580 s1587.1581 s1587.1582 s1587.1605 s1589.1581 s1589.1582",
  "s1589.1605 s1590.1580 s1590.1581 s1590.1582 s1590.1605 s1591.1581 s1592.1605 s1593.1580",
  "s1593.1605 s1594.1580 s1594.1605 s1601.1580 s1601.1581 s1601.1582 s1601.1605 s1602.1581",
  "s1602.1605 s1603.1580 s1603.1581 s1603.1582 s1603.1604 s1603.1605 s1604.1580 s1604.1581",
  "s1604.1582 s1604.1605 s1604.1607 s1605.1580 s1605.1581 s1605.1582 s1605.1605 s1606.1580",
  "s1606.1581 s1606.1582 s1606.1605 s1606.1607 s1607.1580 s1607.1605 s1607.1648 s1610.1580",
  "s1610.1581 s1610.1582 s1610.1605 s1610.1607 s1574.1605 s1574.1607 s1576.1605 s1576.1607",
  "s1578.1605 s1578.1607 s1579.1605 s1579.1607 s1587.1605 s1587.1607 s1588.1605 s1588.1607",
  "s1603.1604 s1603.1605 s1604.1605 s1606.1605 s1606.1607 s1610.1605 s1610.1607 s1600.1614.1617",
  "s1600.1615.1617 s1600.1616.1617 s1591.1609 s1591.1610 s1593.1609 s1593.1610 s1594.1609",
  "s1594.1610 s1587.1609 s1587.1610 s1588.1609 s1588.1610 s1581.1609 s1581.1610 s1580.1609",
  "s1580.1610 s1582.1609 s1582.1610 s1589.1609 s1589.1610 s1590.1609 s1590.1610 s1588.1580",
  "s1588.1581 s1588.1582 s1588.1605 s1588.1585 s1587.1585 s1589.1585 s1590.1585 s1591.1609",
  "s1591.1610 s1593.1609 s1593.1610 s1594.1609 s1594.1610 s1587.1609 s1587.1610 s1588.1609",
  "s1588.1610 s1581.1609 s1581.1610 s1580.1609 s1580.1610 s1582.1609 s1582.1610 s1589.1609",
  "s1589.1610 s1590.1609 s1590.1610 s1588.1580 s1588.1581 s1588.1582 s1588.1605 s1588.1585",
  "s1587.1585 s1589.1585 s1590.1585 s1588.1580 s1588.1581 s1588.1582 s1588.1605 s1587.1607",
  "s1588.1607 s1591.1605 s1587.1580 s1587.1581 s1587.1582 s1588.1580 s1588.1581 s1588.1582",
  "s1591.1605 s1592.1605 s1575.1611 s1575.1611 18v s1578.1580.1605 s1578.1581.1580",
  "s1578.1581.1580 s1578.1581.1605 s1578.1582.1605 s1578.1605.1580 s1578.1605.1581",
  "s1578.1605.1582 s1580.1605.1581 s1580.1605.1581 s1581.1605.1610 s1581.1605.1609",
  "s1587.1581.1580 s1587.1580.1581 s1587.1580.1609 s1587.1605.1581 s1587.1605.1581",
  "s1587.1605.1580 s1587.1605.1605 s1587.1605.1605 s1589.1581.1581 s1589.1581.1581",
  "s1589.1605.1605 s1588.1581.1605 s1588.1581.1605 s1588.1580.1610 s1588.1605.1582",
  "s1588.1605.1582 s1588.1605.1605 s1588.1605.1605 s1590.1581.1609 s1590.1582.1605",
  "s1590.1582.1605 s1591.1605.1581 s1591.1605.1581 s1591.1605.1605 s1591.1605.1610",
  "s1593.1580.1605 s1593.1605.1605 s1593.1605.1605 s1593.1605.1609 s1594.1605.1605",
  "s1594.1605.1610 s1594.1605.1609 s1601.1582.1605 s1601.1582.1605 s1602.1605.1581",
  "s1602.1605.1605 s1604.1581.1605 s1604.1581.1610 s1604.1581.1609 s1604.1580.1580",
  "s1604.1580.1580 s1604.1582.1605 s1604.1582.1605 s1604.1605.1581 s1604.1605.1581",
  "s1605.1581.1580 s1605.1581.1605 s1605.1581.1610 s1605.1580.1581 s1605.1580.1605",
  "s1605.1582.1580 s1605.1582.1605 2x s1605.1580.1582 s1607.1605.1580 s1607.1605.1605",
  "s1606.1581.1605 s1606.1581.1609 s1606.1580.1605 s1606.1580.1605 s1606.1580.1609",
  "s1606.1605.1610 s1606.1605.1609 s1610.1605.1605 s1610.1605.1605 s1576.1582.1610",
  "s1578.1580.1610 s1578.1580.1609 s1578.1582.1610 s1578.1582.1609 s1578.1605.1610",
  "s1578.1605.1609 s1580.1605.1610 s1580.1581.1609 s1580.1605.1609 s1587.1582.1609",
  "s1589.1581.1610 s1588.1581.1610 s1590.1581.1610 s1604.1580.1610 s1604.1605.1610",
  "s1610.1581.1610 s1610.1580.1610 s1610.1605.1610 s1605.1605.1610 s1602.1605.1610",
  "s1606.1581.1610 s1602.1605.1581 s1604.1581.1605 s1593.1605.1610 s1603.1605.1610",
  "s1606.1580.1581 s1605.1582.1610 s1604.1580.1605 s1603.1605.1605 s1604.1580.1605",
  "s1606.1580.1581 s1580.1581.1610 s1581.1580.1610 s1605.1580.1610 s1601.1605.1610",
  "s1576.1581.1610 s1603.1605.1605 s1593.1580.1605 s1589.1605.1605 s1587.1582.1610",
  "s1606.1580.1610 7x v 32x s1589.1604.1746 s1602.1604.1746 s1575.1604.1604.1607",
  "s1575.1603.1576.1585 s1605.1581.1605.1583 s1589.1604.1593.1605 s1585.1587.1608.1604",
  "s1593.1604.1610.1607 s1608.1587.1604.1605 s1589.1604.1609",
  "s1589.1604.1609.32.1575.1604.1604.1607.32.1593.1604.1610.1607.32.1608.1587.1604.1605",
  "s1580.1604.32.1580.1604.1575.1604.1607 s1585.1740.1575.1604 3v 16i m-64996 m-52752 x 2m-64985",
  "m-65012 m-64983 2m-52737 7x 16v x m-56861 m-56863 m-64980 m-64981 2m-65037 m-64956 m-64955",
  "2m-52773 2m-52779 2m-52787 2m-52791 4m-52789 2v m-65004 m-65003 s32.773 s32.773 s32.773",
  "s32.773 m-65006 m-65007 m-65008 m-65060 m-52816 2x m-65049 m-65051 m-65047 m-65078 m-56900",
  "2m-65073 m-64992 m-64991 2m-52809 m-65084 m-65082 2m-65079 m-65078 m-65064 m-65063 m-65065 x",
  "m-65036 2m-65093 m-65067 4x s32.1611 s1600.1611 s32.1612 v s32.1613 x s32.1614 s1600.1614",
  "s32.1615 s1600.1615 s32.1616 s1600.1616 s32.1617 s1600.1617 s32.1618 s1600.1618 2m-63583",
  "2m-63584 2m-63585 2m-63586 2m-63587 m-63588 m-63589 2m-63590 2m-63591 m-63592 m-63593 2m-63594",
  "2m-63595 m-63596 m-63597 2m-63598 m-63599 m-63600 2m-63601 m-63602 m-63603 2m-63604 m-63605",
  "m-63606 2m-63607 m-63608 m-63609 2m-63610 2m-63611 2m-63612 2m-63613 2m-63614 m-63615 m-63616",
  "2m-63617 m-63618 m-63619 2m-63620 m-63621 m-63622 2m-63623 m-63624 m-63625 2m-63626 m-63627",
  "m-63628 2m-63629 m-63630 m-63631 2m-63632 m-63633 m-63634 2m-63635 m-63636 m-63637 m-63638",
  "m-63632 m-63633 m-63634 2m-63635 m-63636 m-63637 2m-63638 m-63639 m-63640 2m-63641 m-63642",
  "m-63643 2m-63644 m-63645 m-63646 2m-63647 m-63648 m-63649 2m-63650 m-63651 m-63652 2m-63653",
  "2m-63654 2m-63655 m-63656 m-63657 m-63658 s1604.1570 s1604.1570 s1604.1571 s1604.1571",
  "s1604.1573 s1604.1573 s1604.1575 s1604.1575 2x i x 32m-65248 26m-65216 36m-65248 2m-54746",
  "m-65331 2m-53078 m-53091 m-52842 m-52852 m-52934 m-52933 m-52932 m-52931 m-52930 m-52873",
  "m-52872 m-52871 m-52908 m-52852 m-52943 m-52942 m-52941 m-52940 2m-52939 m-52938 m-52937",
  "m-52936 m-52935 m-52934 m-52933 m-52932 m-52931 m-52930 m-52929 m-52928 m-52926 m-52925",
  "m-52924 6m-52923 m-52921 m-52919 m-52917 m-52915 5m-52913 m-52912 m-52911 6m-52910 m-52909",
  "m-52906 2m-52997 x 2m-61089 m-60921 m-61090 2m-60921 3m-61092 6m-60922 m-61078 3m-61099",
  "m-61075 10m-61100 3x 6m-61025 2x 6m-61027 2x 6m-61029 2x 3m-61031 3x 2m-65342 m-65334 s32.772",
  "m-65342 m-65344 m-57149 x m-56038 4m-56921 m-55885 m-55843 17x 12v x 26v x 19v x 2v x 15v 2x",
  "14v 34x 123v 5x 3v 4x 45v 3x 88v x 13v 3x v 47x 46v 130x 29v 3x 49v 15x 28v 4x 36v 9x 30v 5x",
  "43v 5x 30v x 37v 4x 14v 42x 40m40 118v 2x 10v 6x 36m40 4x 36v 4x 40v 8x 52v 11x v 11m39 x",
  "15m39 x 7m39 x 2m39 x 11v x 15v x 7v x 2v 67x 311v 9x 22v 10x 8v 24x v 2m-66737 m-67229",
  "m-66795 m-66866 x m-66788 m-23586 m-66788 m-66790 2m-66869 m-59900 m-66870 m-66865 m-66791",
  "m-66861 m-66864 m-66867 m-66809 m-67182 m-66810 m-66864 m-66836 2m-66799 m-66863 m55144",
  "m-24591 m-66864 m55142 m-66834 m55141 m-67242 2m-66861 m-67380 m-66860 m55137 2m-66859 m-66858",
  "m-66819 m-66822 m-23622 m-66823 m-66855 m-56127 x m-66851 2m-66834 m-66845 3m-67062 m55121",
  "m55140 69x 6v 2x v x 44v x 2v 3x v 2x 23v x 72v 8x 9v 48x 19v x 2v 5x 33v 3x 27v 5x v 64x 56v",
  "4x 20v 2x 50v x 2v 5x 8v x 3v x 29v 2x 3v 4x 10v 7x 9v 7x 64v 32x 39v 4x 12v 9x 54v 3x 29v 2x",
  "27v 5x 26v 7x 4v 12x 7v 80x 73v 55x 51m64 13x 51v 7x 46v 8x 10v 294x 31v x 42v x 3v 2x 2v 75x",
  "43v 8x 42v 22x 26v 38x 28v 20x 23v 9x 78v 4x 36v 9x 62v x 5v 13x 25v 7x 10v 6x 53v x 18v 8x",
  "39v 9x 96v x 20v 11x 18v x 47v 62x 7v x v x 4v x 15v x 11v 6x 59v 5x 10v 6x 4v x 8v 2x 2v 2x",
  "22v x 7v x 2v x 5v x 10v 2x 2v 2x 3v 2x v 6x v 5x 7v 2x 7v 3x 5v 139x 92v x 5v 30x 72v 8x 10v",
  "166x 54v 2x 38v 34x 69v 11x 10v 6x 13v 19x 58v 6x 10v 54x 27v 2x 15v 4x 23v 185x 60v 100x",
  "32m32 51v 12x 8v 2x v 2x 8v x 2v x 30v x 2v 2x 12v 9x 10v 70x 8v 2x 46v 2x 11v 27x 72v 8x 83v",
  "13x 73v 7x 10v 246x 9v x 45v x 14v 10x 29v 3x 32v 2x 22v x 14v 73x 7v x 2v x 44v 3x v x 2v x",
  "9v 8x 10v 6x 6v x 2v x 37v x 2v x 6v 7x 10v 310x 25v 7x 17v x 41v 3x 28v 86x v 15x 50v 13x",
  "923v 102x 111v x 5v 11x 196v 2636x 99v 13x 1072v 16x 22v 4010x 583v 8633x 569v 7x 31v x 10v 4x",
  "81v x 10v 6x 30v 2x 6v 10x 70v 10x 10v x 7v x 21v 5x 19v 688x 32m32 59v 101x 75v 4x 57v 7x 17v",
  "64x 5v 11x 2v 14x 6136v 8x 1238v 42x 9v 8935x 4v x 7v x 2v x 291v 15x v 29x 3v 2x v 14x 4v 8x",
  "396v 2308x 107v 5x 13v 3x 9v 7x 10v 2x 4v 4i 4700x 46v 2x 23v 9x 116v 60x 246v 10x 39v 2x 53v",
  "s119127.119141 s119128.119141 s119128.119141.119150 s119128.119141.119151",
  "s119128.119141.119152 s119128.119141.119153 s119128.119141.119154 14v 8x 64v s119225.119141",
  "s119226.119141 s119225.119141.119150 s119226.119141.119150 s119225.119141.119151",
  "s119226.119141.119151 42v 21x 70v 122x 20v 12x 20v 12x 87v 9x 25v 135x 26m-119711 26m-119737",
  "26m-119763 7m-119789 x 18m-119789 26m-119815 26m-119841 m-119867 x 2m-119867 2x m-119867 2x",
  "2m-119867 2x 4m-119867 x 8m-119867 4m-119893 x m-119893 x 7m-119893 x 11m-119893 26m-119919",
  "26m-119945 2m-119971 x 4m-119971 2x 8m-119971 x 7m-119971 x 26m-119997 2m-120023 x 4m-120023 x",
  "5m-120023 x m-120023 3x 7m-120023 x 26m-120049 26m-120075 26m-120101 26m-120127 26m-120153",
  "26m-120179 26m-120205 26m-120231 26m-120257 26m-120283 26m-120309 26m-120335 26m-120361",
  "m-120179 m-119918 2x 17m-119543 m-119553 7m-119543 m-111802 17m-119569 m-119568 7m-119569",
  "m-111833 m-119591 m-119589 m-119588 m-119577 m-119583 m-119585 17m-119601 m-119611 7m-119601",
  "m-111860 17m-119627 m-119626 7m-119627 m-111891 m-119649 m-119647 m-119646 m-119635 m-119641",
  "m-119643 17m-119659 m-119669 7m-119659 m-111918 17m-119685 m-119684 7m-119685 m-111949",
  "m-119707 m-119705 m-119704 m-119693 m-119699 m-119701 17m-119717 m-119727 7m-119717 m-111976",
  "17m-119743 m-119742 7m-119743 m-112007 m-119765 m-119763 m-119762 m-119751 m-119757 m-119759",
  "17m-119775 m-119785 7m-119775 m-112034 17m-119801 m-119800 7m-119801 m-112065 m-119823",
  "m-119821 m-119820 m-119809 m-119815 m-119817 m-119789 m-119790 2x 10m-120734 10m-120744",
  "10m-120754 10m-120764 10m-120774 652v 15x 5v x 15v 1104x 31v 6x 6v 213x 7v x 17v 2x 7v x 2v x",
  "5v 5x 9m-121856 3m-121855 11m-121854 m-121852 2m-121851 m-80321 m-121714 m-121846 m-121845",
  "m-121701 m-121760 m-121729 9m-121889 2m-121888 2m-121886 m-121885 6m-121884 2m-121883 m-121814",
  "m-121874 m-121876 m-121867 m-121792 m-80411 m-121788 33x v 112x 45v 3x 14v 2x 10v 4x 2v 320x",
  "31v 17x 58v 5x v 464x 42v 742x 7v x 4v x 2v x 15v x 197v 2x 16v 41x 34m34 42v 4x 10v 4x 2v",
  "785x 68v 76x 61v 194x 2m-124889 m-124886 m-124884 x m-124861 m-124884 m-124890 m-124881",
  "m-124863 4m-124871 m-124891 m-124886 m-124879 m-124892 m-124880 m-124898 m-124896 2m-124907",
  "m-124905 m-124904 m-124899 m-124898 m-124897 m-124846 m-124771 m-124797 m-124848 x m-124921",
  "m-124918 x m-124893 2x m-124922 x m-124895 4m-124903 m-124923 m-124918 m-124911 m-124924",
  "m-124912 x m-124928 2m-124939 m-124937 x m-124931 x m-124929 6x m-124950 4x m-124954 x",
  "m-124927 x m-124935 x m-124935 m-124955 m-124950 x m-124956 m-124944 x m-124960 2x m-124969 x",
  "m-124963 x m-124961 x m-124835 x m-124912 x m-124985 m-124982 x m-124957 2x m-124986 m-124977",
  "m-124959 m-124967 x 2m-124967 m-124987 m-124982 m-124975 m-124988 m-124976 x m-124992",
  "2m-125003 m-125001 x m-124995 m-124994 m-124993 m-124942 x m-124893 x 2m-125017 m-125014",
  "m-125012 2m-124989 m-125012 m-125018 m-125009 m-124991 x 3m-124999 m-125019 m-125014 m-125007",
  "m-125020 m-125008 m-125026 m-125024 2m-125035 m-125033 m-125032 m-125027 m-125026 m-125025 5x",
  "m-125049 m-125046 m-125044 x m-125021 m-125044 m-125050 m-125041 m-125023 x 3m-125031 m-125051",
  "m-125046 m-125039 m-125052 m-125040 m-125058 m-125056 2m-125067 m-125065 m-125064 m-125059",
  "m-125058 m-125057 52x 2v 270x 44v 4x 100v 12x 15v 2x 15v x 15v x 37v 11x s48.44 s49.44 s50.44",
  "s51.44 s52.44 s53.44 s54.44 s55.44 s56.44 s57.44 5v s40.97.41 s40.98.41 s40.99.41 s40.100.41",
  "s40.101.41 s40.102.41 s40.103.41 s40.104.41 s40.105.41 s40.106.41 s40.107.41 s40.108.41",
  "s40.109.41 s40.110.41 s40.111.41 s40.112.41 s40.113.41 s40.114.41 s40.115.41 s40.116.41",
  "s40.117.41 s40.118.41 s40.119.41 s40.120.41 s40.121.41 s40.122.41 s12308.115.12309 m-127176",
  "m-127162 s99.100 s119.122 v 26m-127183 s104.118 s109.118 s115.100 s115.115 s112.112.118",
  "s119.99 26v s109.99 s109.100 s109.114 35v s100.106 29v 56x 26v s12411.12363 s12467.12467",
  "m-115021 13x m-102341 m-104122 m-106054 m-115020 m-107400 m-104699 m-92211 m-104686 m-107380",
  "m-101369 m-98553 m-101506 m-106447 m-103057 m-106641 m-101487 m-106499 m-95455 m-97539 m-91514",
  "m-104756 m-105964 m-99090 m-102290 m-102099 m-107561 m-107553 m-90593 m-103494 m-107520",
  "m-106043 m-102184 m-91328 m-102366 m-96433 m-96185 m-106028 m-99253 m-101165 m-101167 m-97541",
  "m-106439 m-105604 m-90350 4x s12308.26412.12309 s12308.19977.12309 s12308.20108.12309",
  "s12308.23433.12309 s12308.28857.12309 s12308.25171.12309 s12308.30423.12309 s12308.21213.12309",
  "s12308.25943.12309 7x m-103097 m-106082 14x 6v 154x 984v 4x 17v 3x 13v 3x 119v 4x 95v 6x 12v",
  "4x v 15x 12v 4x 56v 8x 10v 6x 40v 8x 30v 2x 2v 78x 340v 12x 14v 2x 13v 3x 9v 7x 46v x 7v 8x",
  "14v 4x 9v 7x 9v 7x 147v x 55v 37x 10m-129984 1030x 42720v 32x 4154v 6x 222v 2x 5762v 14x 7473v",
  "15x 622v 2466x m-174531 m-174537 m-174529 m-63201 m-174244 m-174167 m-174155 m-174085 m-173966",
  "m-173936 m-173859 m-173884 m-181102 m-61907 m-173761 m-173755 m-173740 m-173722 m-62198",
  "m-181082 m-173741 m-173704 m-62155 m-173696 m-173684 m-174413 m-173678 m-173670 m-26173",
  "m-173608 m-173595 m-181056 m-173541 m-173531 m-173488 m-173484 m-181007 m-173406 m-173405",
  "m-173379 m-173358 2m-173348 m-173332 m-173283 m-173276 m-173268 m-173244 m-173235 m-173234",
  "m-173235 m-173236 m-60936 m-165829 m-173164 m-173144 m-60629 m-173134 m-173129 m-173109",
  "m-172958 m-173061 m-173046 m-173015 m-172958 m-172875 m-172850 m-172784 m-172769 m-172737",
  "m-172738 m-172718 m-172701 m-172694 m-172680 m-172341 m-172614 m-172342 m-172541 m-172507",
  "m-173641 m-171875 m-172164 m-172127 m-172103 m-172234 m-172068 m-172070 m-171948 m-58229",
  "m-171880 m-171876 m-171862 m-171843 m-171836 m-171773 m-57784 m-57719 m-171638 m-171592",
  "m-171581 m-171661 m-171520 m-180601 x m-171361 m-171308 m-171309 m-56996 m-171178 m-171158",
  "m-171144 m-171133 m-56665 m-171123 m-171117 x m-171091 m-180469 m-171031 m-171018 m-170937",
  "m-170989 m-55959 m-170809 m-55959 m-170768 m-170772 m-170756 2m-170656 m-180308 m-170631",
  "m-170589 m-170569 m-170526 m-180262 m-55046 m-180238 m-170459 m-170457 m-170455 m-170436",
  "m-21757 m-170386 m-54624 m-54625 m-161426 m-170354 m-170355 m-180175 m-50655 m-38590 m-170295",
  "m-170287 m-180152 m-170242 m-170192 m-170183 m-170150 m-170015 m-180071 m-180102 m-169999",
  "m-53712 m-169950 m-169822 m-169819 m-169818 m-169821 m-169776 m-169757 m-169722 m-169737",
  "m-169727 m-169681 m-169662 m-169659 m-169634 m-169624 m-169559 m-169476 m-169442 m-169319",
  "m-52652 m-169340 m-169406 m-169299 m-169273 m-169177 m-52429 m-169117 m-169211 m-169240",
  "m-179860 m-169050 m-169030 m-169000 m-169039 m-179803 m-168825 m-168797 m-51392 m-168680",
  "m-168404 m-168580 m-179637 m-168510 m-179656 m-179693 m-173888 m-173886 m-168404 m-168505",
  "m-161833 m-177406 m-168385 m-168382 m-168377 m-168317 m-168329 m-50458 m-179605 m-168165",
  "m-168283 m-168079 m-168029 m-50294 m-168022 m-168134 m-167890 m-179530 m-167846 m-167750",
  "m-167680 m-167491 m-49737 m-167442 m-179414 m-167374 m-49225 m-167325 m-179364 m-167297",
  "m-167253 2m-167227 m-48746 m-56301 m-48639 m-167084 m-48191 m-166973 m-166960 m-167063",
  "m-166889 m-166850 m-166794 m-166849 m-166810 m-166796 m-166784 m-48104 m-166867 m-166617",
  "m-166555 m-179159 m-166464 m-166469 m-47676 m-166677 m-166305 m-47538 m-47491 m-166220",
  "m-166106 m-166134 m-166138 m-179072 m-166093 m-166043 m-166050 m-165997 m-62454 m-165847",
  "m-46778 m-165762 x m-165624 m-165612 m-165586 m-45851 m-165540 m-165520 m-45553 m-45331",
  "m-165294 m-165278 m-178814 m-165254 m-178804 m-178805 m-165095 m-165075 m-165055 m-165036",
  "m-164968 m-178712 m-164880 m-44287 m-164856 m-44197 m-164808 m-55194 m-164650 m-43418 m-43396",
  "m-43257 m-178498 m-178487 m-164428 m-43086 m-43088 m-43050 m-43025 2m-164391 m-164392 m-164350",
  "m-178448 m-164287 m-178437 m-178358 m-42288 m-164096 m-164035 m-163972 m-178286 m-41772",
  "m-163837 m-41658 m-41616 m-163783 m-163692 m-178217 m-163609 m-163600 m-163596 m-40928 m-40630",
  "m-40631 x m-178014 m-40374 m-163228 m-163226 m-177981 m-40165 m-162964 m-177863 m-162944",
  "m-162950 m-162922 m-39397 m-162825 m-177772 m-162727 m-162669 m-162603 m-177725 m-38730",
  "m-38700 m-177691 m-38556 m-162300 m-38457 m-162275 m-162175 m-162165 m-38049 m-37977 m-162077",
  "m-37846 m-162063 m-50721 m-177580 m-162000 m-161920 m-177529 m-161863 m-171729 m-37344 m-37331",
  "m-50678 m-50670 m-161674 m-161672 m-158191 m-177443 m-161534 m-161541 m-161524 m-173791",
  "m-161506 m-161505 m-161496 m-161456 m-36443 m-161459 m-161404 m-161335 m-161262 m-161401",
  "m-161248 m-161207 m-161096 m-161357 m-161239 m-161238 m-161223 m-36206 m-35898 m-36049",
  "m-177276 m-160951 m-160950 m-160916 m-34273 m-160840 m-35457 m-177233 m-177230 m-35327 m-35039",
  "m-177223 m-160611 m-160600 m-160590 m-160589 m-160526 m-160560 m-160427 m-160472 m-160322",
  "m-160404 m-160338 m-160312 x m-160223 m-160192 m-177097 m-160099 m-160097 m-33630 m-159983",
  "m-159977 m-177043 m-159951 m-181519 m-33053 m-32870 m-176911 m-176903 m-159535 m-159459",
  "m-159303 m-159101 m-32043 m-159017 m-158996 m-158907 m-158816 m-31401 m-61909 m-158735",
  "m-158751 m-158700 m-61695 m-158474 m-158375 m-29710 m-29684 m-158030 m-157938 m-157907 m-29367",
  "m-157899 m-157615 2m-157457 m-157550 m-157170 m-157143 m-28147 m-156771 m-176218 m-156729",
  "m-27770 m-176140 m-156464 m-171074 m-156370 m-26801 m-26589 m-176010 m-176003 m-156186 m-26097",
  "m-175946 m-25959 m-156147 m-156148 m-156119 m-25675 m-155936 m-175824 m-155867 m-155742",
  "m-155716 m-155657 m-175674 m-24281 m-155384 m-155083 m-154895 m-175423 m-175393 m-154792",
  "m-22850 m-175385 m-22797 m-22533 m-22403 m-154458 m-175296 m-154398 m-154394 m-154388 m-154379",
  "m-154373 m-154337 m-21533 1506x 4939v 5x 4192v 712016x 240i 196112x"]

/-- The characters that a span asks to write for the code point `n`, which is the one at `offset` in
it. -/
def writtenIn (span : Text.Span) (offset n : Nat) : Option (List Nat) :=
  match span.tag with
  | 'v' => some [n]
  | 'i' => some []
  | 'a' => some [if offset % 2 = 0 then n + 1 else n]
  | 'm' =>
    match span.detail with
    | '-' :: digits => some [n - Text.decimalValue digits]
    | digits => some [n + Text.decimalValue digits]
  | 's' => some ((span.detail.splitOn '.').map Text.decimalValue)
  | _ => none

def inDomain? (c : Char) : Option (List Char) := do
  let (span, offset) ← domainSpans.find? c.toNat
  return (← writtenIn span offset c.toNat).map Char.ofNat

end JsonTyping.Url
